import OpenHRP.Dynamics.ForwardDynamicsMM

/-!
# The equations that the mixed-mode solver sets up

`M11 * x + b1` should be the inverse dynamics of the body under the unknown accelerations `x` and
the given ones. It is, for a root that is fixed or free in torque mode. For a root whose motion is
given it need not be: `initializeAccelSolver` forms `dvo` from the given `dv` and `dw`, and then
multiplies it with columns of `M12` that are made for `dv`, so that what turns `dv` into `dvo` comes
in twice. The error is an acceleration `excessAccel` of the whole body, and the equations hold
exactly when no torque-mode joint takes part in carrying it (`isAffineInverseDynamics_iff`).
-/

open Matrix

namespace OpenHRP

namespace ForwardDynamicsMM

open ForwardDynamicsABM (accel axis crossVelocity biasForce externalForce calcABMPhase1Joint)

variable {ι K : Type*} [DecidableEq ι] [Field K]

/-! ### What is to be computed -/

/-- The acceleration of the root, linear and angular: unknown, given, or none. -/
def rootAccel (modes : Modes ι) (root : Link K) (x : Unknown modes → K) : Vector3 K × Vector3 K :=
  if h : modes.unknown_rootDof = true then
    (fun k ↦ x (.inl ⟨.inl k, h⟩), fun k ↦ x (.inl ⟨.inr k, h⟩))
  else if modes.given_rootDof then (root.dv, root.dw) else 0

/-- The spatial acceleration of a root with the acceleration `a`. -/
def spatialAccel (root : Link K) (a : Vector3 K × Vector3 K) : Spatial K :=
  (a.1 - cross a.2 root.p - cross root.w root.v, a.2)

section

variable {modes : Modes ι} (t : LinkTree ι) (g : Vector3 K)

/-- Joint accelerations that are the unknown ones at the torque-mode joints and those of the links
at the high-gain joints. -/
structure IsJointAccel (modes : Modes ι) (s : Store ι K) (x : Unknown modes → K) (ddq : ι → K) :
    Prop where
  torque : ∀ i : Fin modes.torqueModeJoints.length, ddq (modes.torqueModeJoints.get i) = x (.inr i)
  highGain : ∀ i ∈ modes.highGainModeJoints, ddq i = (s i).ddq

/-- `M11 * x + b1` of the state `st'` is the inverse dynamics of the links `s` with the unknown
accelerations `x`, the given ones and gravity. -/
def IsAffineInverseDynamics (s : Store ι K) (st' : State ι K modes) : Prop :=
  ∀ x ddq, IsJointAccel modes s x ddq → ∀ d, (st'.M11 *ᵥ x + st'.b1) d =
    newtonEulerForce t s (spatialAccel (s t.root) (rootAccel modes (s t.root) x) + (g, 0)) ddq
        d.dof + motorInertia s d * x d

/-- The acceleration that comes in once too often when the motion of the root is given, from the
root before the positions and velocities are calculated. -/
def excessAccel (root : Link K) : Vector3 K :=
  cross root.w (root.vo + cross root.w root.p) + cross root.dw root.p

/-- What a joint takes to accelerate everything it carries by `e`. -/
def carryTorque (s : Store ι K) (e : Vector3 K) (i : ι) : K :=
  let m := t.subtreeSum (fun k ↦ (s k).m) i
  let mwc := t.subtreeSum (fun k ↦ (s k).m • (s k).wc) i
  (s i).sv ⬝ᵥ (m • e) + (s i).sw ⬝ᵥ cross mwc e

end

/-! ### Positions and velocities -/

section Positions

variable [CMath K] {modes : Modes ι} {t : LinkTree ι}

/-- What the loop leaves alone. -/
def dropPosition (link : Link K) : Link K :=
  { link with
    p := 0, R := 0, v := 0, w := 0, wc := 0, vo := 0, sw := 0, sv := 0, cv := 0, cw := 0
    Iww := 0, Iwv := 0, pf := 0, ptau := 0 }

/-- The links that `calcPositionAndVelocityFK` starts its loop with. -/
def startLinks (t : LinkTree ι) (st : State ι K modes) : Store ι K :=
  if modes.given_rootDof then
    Function.update st.links t.root { st.links t.root with
      vo := (st.links t.root).v - cross (st.links t.root).w (st.links t.root).p }
  else st.links

variable (st : State ι K modes)

theorem calcPositionAndVelocityFK_links {i : ι} (hi : i ∈ t.links) :
    (calcPositionAndVelocityFK t st).links i = calcPositionAndVelocityLink
      ((t.parent i).map (calcPositionAndVelocityFK t st).links) (startLinks t st i) :=
  t.forwardLoop_eq _ _ hi

omit [CMath K] in
theorem dropPosition_startLinks (i : ι) :
    dropPosition (startLinks t st i) = dropPosition (st.links i) := by
  rw [startLinks]
  split_ifs
  · rcases eq_or_ne i t.root with rfl | hi
    · rw [Function.update_self]
      rfl
    · rw [Function.update_of_ne hi]
  · rfl

/-- The spatial inertia is that of the centre of mass, moved to the origin. -/
theorem Iwv_calcPositionAndVelocityFK (st : State ι K modes) {i : ι} (hi : i ∈ t.links) :
    let link := (calcPositionAndVelocityFK t st).links i
    link.Iwv = link.m • hat link.wc := by
  intro link
  have hlink : link = commonCalcs _ := calcPositionAndVelocityFK_links st hi
  rw [hlink]
  rfl

/-- The joint of a link without a moving joint has no axis. -/
theorem axis_calcPositionAndVelocityFK {i : ι} (hi : i ∈ t.child.links)
    (hmoving : ¬IsMoving (st.links i)) : axis ((calcPositionAndVelocityFK t st).links i) = 0 := by
  obtain ⟨p, hp⟩ := t.exists_parent_of_mem_child hi
  have htype : (startLinks t st i).jointType = (st.links i).jointType :=
    (congrArg Link.jointType (dropPosition_startLinks st i) :)
  rw [calcPositionAndVelocityFK_links st (List.mem_cons_of_mem _ hi), hp, Option.map_some]
  show axis (calcABMPhase1Joint _ _) = 0
  rw [calcABMPhase1Joint, htype]
  rcases hjoint : (st.links i).jointType with _ | _ | _ | _
  · rfl
  · rfl
  · exact absurd (.inl hjoint) hmoving
  · exact absurd (.inr hjoint) hmoving

/-- The root after the positions and velocities are calculated. -/
structure RootReady (modes : Modes ι) (before after : Link K) : Prop where
  p : after.p = before.p
  w : after.w = before.w
  dv : after.dv = before.dv
  dw : after.dw = before.dw
  v : after.v = after.vo + after.w ⨯₃ after.p
  vo : modes.given_rootDof = false → after.vo = before.vo

theorem rootReady_calcPositionAndVelocityFK :
    RootReady modes (st.links t.root) ((calcPositionAndVelocityFK t st).links t.root) := by
  have hroot : (calcPositionAndVelocityFK t st).links t.root =
      commonCalcs (startLinks t st t.root) := by
    rw [calcPositionAndVelocityFK_links st t.root_mem, t.parent_root]
    rfl
  rw [hroot]
  by_cases h : modes.given_rootDof = true
  · have hstart : startLinks t st t.root = { st.links t.root with
        vo := (st.links t.root).v - (st.links t.root).w ⨯₃ (st.links t.root).p } := by
      rw [startLinks, if_pos h, Function.update_self]
    rw [hstart]
    refine ⟨rfl, rfl, rfl, rfl, rfl, fun hf ↦ ?_⟩
    rw [h] at hf
    exact absurd hf (by decide)
  · have hstart : startLinks t st t.root = st.links t.root := by rw [startLinks, if_neg h]
    rw [hstart]
    exact ⟨rfl, rfl, rfl, rfl, rfl, fun _ ↦ rfl⟩

end Positions

/-! ### The equations -/

section Coord

variable {rootDof : Bool} {joints : List ι}

/-- The acceleration of the root, for a root at `p`, that the accelerations `x` have. -/
def coordAccel (p : Vector3 K) (x : Coord rootDof joints → K) : Spatial K :=
  ∑ e, x e • unitRoot p e.dof

/-- The joint accelerations that the accelerations `x` have. -/
def coordRate (x : Coord rootDof joints → K) (i : ι) : K :=
  ∑ e, x e * unitRate e.dof i

section

omit [DecidableEq ι]

theorem coordAccel_eq (p : Vector3 K) (x : Coord rootDof joints → K) (h : rootDof = true) :
    coordAccel p x = ((fun k ↦ x (.inl ⟨.inl k, h⟩)) -
      (fun k ↦ x (.inl ⟨.inr k, h⟩)) ⨯₃ p, fun k ↦ x (.inl ⟨.inr k, h⟩)) := by
  have hzero : ∀ i : Fin joints.length,
      x (.inr i) • unitRoot p (Coord.dof (.inr i : Coord rootDof joints)) = 0 := fun i ↦
    smul_zero _
  rw [← sum_smul_unitRoot (ι := ι), coordAccel, Fintype.sum_sum_type,
    Finset.sum_congr rfl fun i _ ↦ hzero i, Finset.sum_const_zero, add_zero,
    ← (Equiv.subtypeUnivEquiv fun _ ↦ h).symm.sum_comp, Fintype.sum_sum_type]
  rfl

theorem coordAccel_of_not (p : Vector3 K) (x : Coord rootDof joints → K)
    (h : rootDof = false) : coordAccel p x = 0 := by
  refine Finset.sum_eq_zero fun e _ ↦ ?_
  rcases e with ⟨_, htrue⟩ | i
  · rw [h] at htrue
    exact absurd htrue (by decide)
  · exact smul_zero _

end

theorem coordRate_eq (x : Coord rootDof joints → K) (i : ι) :
    coordRate x i = ∑ k : Fin joints.length, if joints.get k = i then x (.inr k) else 0 := by
  have hroot : ∀ d : {_d : Fin 3 ⊕ Fin 3 // rootDof = true},
      x (.inl d) * unitRate (Coord.dof (.inl d : Coord rootDof joints)) i = 0 := fun d ↦ by
    obtain ⟨k | k, _⟩ := d <;> exact mul_zero _
  rw [coordRate, Fintype.sum_sum_type, Finset.sum_congr rfl fun d _ ↦ hroot d,
    Finset.sum_const_zero, zero_add]
  refine Finset.sum_congr rfl fun k _ ↦ ?_
  show x (.inr k) * (Pi.single (joints.get k) 1 : ι → K) i = _
  rw [Pi.single_apply, mul_ite, mul_one, mul_zero]
  simp only [eq_comm]

theorem coordRate_getElem (hjoints : joints.Nodup) (x : Coord rootDof joints → K)
    (k : Fin joints.length) : coordRate x (joints.get k) = x (.inr k) := by
  have hiff : ∀ k' : Fin joints.length, joints.get k' = joints.get k ↔ k' = k := fun k' ↦
    ⟨fun h ↦ Fin.ext ((List.Nodup.getElem_inj_iff hjoints).1 h), fun h ↦ h ▸ rfl⟩
  rw [coordRate_eq]
  simp only [hiff, Finset.sum_ite_eq', Finset.mem_univ, if_true]

theorem coordRate_of_notMem (x : Coord rootDof joints → K) {i : ι} (hi : i ∉ joints) :
    coordRate x i = 0 := by
  rw [coordRate_eq]
  refine Finset.sum_eq_zero fun k _ ↦ if_neg fun h ↦ hi ?_
  rw [← h]
  exact List.getElem_mem _

end Coord

section Equations

variable {modes : Modes ι} {t : LinkTree ι}

/-- The given accelerations as `initializeAccelSolver` takes them over. -/
def copiedAccel (t : LinkTree ι) (s : Store ι K) : Given modes → K
  | .inl ⟨.inl k, _⟩ => (spatialAccel (s t.root) ((s t.root).dv, (s t.root).dw)).1 k
  | .inl ⟨.inr k, _⟩ => (s t.root).dw k
  | .inr i => (s (modes.highGainModeJoints.get i)).ddq

theorem ddqGiven_copyGiven (hmodes : modes.Sorted t) {s : Store ι K} {st : State ι K modes}
    (hkept : Kept t s st.links) (hcopied : st.ddqGivenCopied = false) :
    (copyGiven t st).ddqGiven = copiedAccel t s := by
  have hroot : atRest (st.links t.root) = atRest (s t.root) := hkept.rest _ t.root_mem
  have hdw : (st.links t.root).dw = (s t.root).dw := congrArg Prod.snd hkept.root
  have haccel : (st.links t.root).dv - (st.links t.root).dw ⨯₃ (st.links t.root).p -
      (st.links t.root).w ⨯₃ (st.links t.root).v =
        (spatialAccel (s t.root) ((s t.root).dv, (s t.root).dw)).1 := by
    rw [hdw]
    exact (congrArg (fun link : Link K ↦
      link.dv - (s t.root).dw ⨯₃ link.p - link.w ⨯₃ link.v) hroot :)
  rw [copyGiven, if_neg (by rw [hcopied]; decide)]
  funext e
  rcases e with ⟨k | k, h⟩ | i
  · show ((if modes.given_rootDof then _ else _ : Store ι K) t.root).dvo k = _
    rw [if_pos h, Function.update_self]
    exact congrFun haccel k
  · show ((if modes.given_rootDof then _ else _ : Store ι K) t.root).dw k = _
    rw [if_pos h, Function.update_self]
    exact congrFun hdw k
  · have hi : modes.highGainModeJoints.get i ∈ t.child.links :=
      hmodes.highGain_mem _ (List.getElem_mem _)
    rw [copiedAccel, ← hkept.ddq _ (List.mem_cons_of_mem _ hi)]
    show ((if modes.given_rootDof then _ else _ : Store ι K)
      (modes.highGainModeJoints.get i)).ddq = _
    split_ifs
    · rw [Function.update_of_ne (t.ne_root_of_mem_child hi)]
    · rfl

/-- **The equations that are set up**, in the state that `calcMassMatrix` starts from. -/
theorem mulVec_add_b1 (hmodes : modes.Sorted t) (g : Vector3 K) (st : State ι K modes)
    (hcopied : st.ddqGivenCopied = false) (x : Unknown modes → K) (d : Unknown modes) :
    let st' := initializeAccelSolver t (calcMassMatrix t g st)
    let p := (st.links t.root).p
    let y : Given modes → K := copiedAccel t st.links
    (st'.M11 *ᵥ x + st'.b1) d = newtonEulerForce t st.links
        ((g - st.root_w_x_v, 0) + (coordAccel p x + coordAccel p y)) (coordRate x + coordRate y)
        d.dof + motorInertia st.links d * x d := by
  intro st' p y
  obtain ⟨hM11, hM12, hb1, hkept⟩ := calcMassMatrix_spec hmodes g st
  set st₂ := calcMassMatrix t g st with hst₂
  have hd : IsDof t d.dof := d.isDof hmodes.torque_mem
  have hgiven : (copyGiven t st₂).ddqGiven = y := ddqGiven_copyGiven hmodes hkept hcopied
  have hcopy : (copyGiven t st₂).M11 = st₂.M11 ∧ (copyGiven t st₂).M12 = st₂.M12 ∧
      (copyGiven t st₂).b1 = st₂.b1 := by
    rw [copyGiven, if_neg (by rw [hst₂]; exact (hcopied ▸ by decide))]
    exact ⟨rfl, rfl, rfl⟩
  have hM11' : st'.M11 = st₂.M11 := hcopy.1
  have hb1' : st'.b1 = st₂.b1 + st₂.M12 *ᵥ y := by
    rw [← hgiven, ← hcopy.2.1, ← hcopy.2.2]
    rfl
  have hmotor : (∑ e, (if d = e then motorInertia st.links d else 0) * x e) =
      motorInertia st.links d * x d := by simp
  calc (st'.M11 *ᵥ x + st'.b1) d
      = (∑ e, st₂.M11 d e * x e) + (st₂.b1 d + ∑ e, st₂.M12 d e * y e) := by
        rw [hM11', hb1']
        rfl
    _ = newtonEulerForce t st.links (g - st.root_w_x_v, 0) 0 d.dof +
          ((∑ e, x e * entry t st.links d.dof e.dof) +
            ∑ e, y e * entry t st.links d.dof e.dof) + motorInertia st.links d * x d := by
        simp only
          [hM11, hM12, hb1, add_mul, Finset.sum_add_distrib, hmotor, mul_comm (entry _ _ _ _)]
        ring
    _ = _ := by
        rw [← add_assoc (g - st.root_w_x_v, 0) (coordAccel p x), ← zero_add (coordRate x + _),
          ← add_assoc 0 (coordRate x), newtonEulerForce_add t _ _ _ _ _ hd,
          newtonEulerForce_add t _ _ _ _ _ hd, ← add_assoc (newtonEulerForce _ _ _ _ _)]
        simp only [entry, sum_mul_massEntry t _ _ _ _ _ hd]
        rfl

/-- The acceleration of the root that the equations are for. -/
theorem rootAccel_eq [CMath K] (hmodes : modes.Sorted t) (g : Vector3 K) (st : State ι K modes)
    (x : Unknown modes → K) :
    let st₁ := calcPositionAndVelocityFK t st
    let root := st₁.links t.root
    let y : Given modes → K := copiedAccel t st₁.links
    let e := if modes.given_rootDof then excessAccel (st.links t.root) else 0
    (g - st₁.root_w_x_v, 0) + (coordAccel root.p x + coordAccel root.p y) =
      spatialAccel root (rootAccel modes root x) + (g, 0) + (-e, 0) := by
  intro st₁ root y e
  have hready : RootReady modes (st.links t.root) root := rootReady_calcPositionAndVelocityFK st
  have hw : st₁.root_w_x_v = root.w ⨯₃ ((st.links t.root).vo + root.w ⨯₃ root.p) := by
    rw [hready.w, hready.p]
    rfl
  have hv : modes.given_rootDof = false → st₁.root_w_x_v = root.w ⨯₃ root.v := fun h ↦ by
    rw [hw, hready.v, hready.vo h]
  rcases Bool.eq_false_or_eq_true modes.given_rootDof with hgiven | hgiven
  swap
  · have he : e = 0 := by rw [show e = if modes.given_rootDof then _ else _ from rfl, hgiven]; rfl
    rw [coordAccel_of_not _ _ hgiven, add_zero, he, hv hgiven, rootAccel]
    by_cases hunknown : modes.unknown_rootDof = true
    · rw [dif_pos hunknown, coordAccel_eq _ _ hunknown]
      refine Prod.ext ?_ ?_
      · show g - _ + (_ - _) = _ - _ - _ + g + -0
        abel
      · show 0 + _ = _ + 0 + 0
        abel
    · rw [dif_neg hunknown, coordAccel_of_not _ _ (by simpa using hunknown),
        if_neg (by rw [hgiven]; decide)]
      refine Prod.ext ?_ ?_
      · show g - _ + 0 = (0 : Vector3 K) - (0 : Vector3 K) ⨯₃ _ - _ + g + -0
        rw [LinearMap.map_zero₂]
        abel
      · show (0 : Vector3 K) + 0 = 0 + 0 + 0
        abel
  · have hunknown : modes.unknown_rootDof = false := by
      by_contra h
      rw [hmodes.root (by simpa using h)] at hgiven
      exact absurd hgiven (by decide)
    have he : e = excessAccel (st.links t.root) := by
      rw [show e = if modes.given_rootDof then _ else _ from rfl, hgiven]
      rfl
    rw [coordAccel_of_not _ x hunknown, zero_add, coordAccel_eq _ _ hgiven, he, hw, excessAccel,
      ← hready.w, ← hready.p, ← hready.dw, rootAccel, dif_neg (by rw [hunknown]; decide),
        if_pos hgiven]
    refine Prod.ext ?_ ?_
    · show g - _ + (root.dv - root.dw ⨯₃ root.p - root.w ⨯₃ root.v - root.dw ⨯₃ root.p) =
        root.dv - root.dw ⨯₃ root.p - root.w ⨯₃ root.v + g + -_
      abel
    · show 0 + root.dw = root.dw + 0 + 0
      abel

/-- Carrying the whole body takes a joint the weight of its subtree. -/
theorem generalizedForce_const {s : Store ι K} (hIwv : ∀ i ∈ t.links, (s i).Iwv =
    (s i).m • hat (s i).wc) (p e : Vector3 K) {j : ι} (hj : j ∈ t.child.links) :
    generalizedForce t p (fun i ↦ axis (s i)) (fun k ↦ (inertia (s k)).toLin (e, 0))
      (.inr (.inr j)) = carryTorque t s e j := by
  have hlink : ∀ k ∈ t.below j, (inertia (s k)).toLin (e, 0) =
      ((s k).m • e, ((s k).m • (s k).wc) ⨯₃ e) := fun k hk ↦ by
    have hmem : k ∈ t.links := (t.below_sublist (List.mem_cons_of_mem _ hj)).subset hk
    refine Prod.ext ?_ ?_
    · show ((s k).m • (1 : Matrix33 K)) *ᵥ e + (s k).Iwvᵀ *ᵥ 0 = (s k).m • e
      rw [smul_mulVec, one_mulVec, mulVec_zero, add_zero]
    · show (s k).Iwv *ᵥ e + (s k).Iww *ᵥ 0 = ((s k).m • (s k).wc) ⨯₃ e
      rw [hIwv k hmem, smul_mulVec, hat_mulVec, mulVec_zero, add_zero, LinearMap.map_smul₂]
  have hfst := t.map_subtreeSum (AddMonoidHom.fst (Vector3 K) (Vector3 K))
    (fun k ↦ ((s k).m • e, ((s k).m • (s k).wc) ⨯₃ e)) j
  have hsnd := t.map_subtreeSum (AddMonoidHom.snd (Vector3 K) (Vector3 K))
    (fun k ↦ ((s k).m • e, ((s k).m • (s k).wc) ⨯₃ e)) j
  have hm := t.map_subtreeSum (LinearMap.toSpanSingleton K (Vector3 K) e).toAddMonoidHom
    (fun k ↦ (s k).m) j
  have hmwc := t.map_subtreeSum ((crossProduct (R := K)).flip e).toAddMonoidHom
    (fun k ↦ (s k).m • (s k).wc) j
  rw [generalizedForce, t.subtreeSum_congr hlink, spatialPower, spatialDot_apply, carryTorque]
  exact congrArg₂ (· + ·) (congrArg (_ ⬝ᵥ ·) (hfst.trans hm.symm))
    (congrArg (_ ⬝ᵥ ·) (hsnd.trans hmwc.symm))

end Equations

section Main

variable [CMath K] {modes : Modes ι}

/-- The joint accelerations that the equations are for, as far as the joints can move. -/
theorem IsJointAccel.smul_axis {t : LinkTree ι} {isHighGainMode : ι → Bool} {st : State ι K modes}
    (hmodes : modes = initializeModes t isHighGainMode st.links) {x : Unknown modes → K}
    {ddq : ι → K} (h : IsJointAccel modes (calcPositionAndVelocityFK t st).links x ddq) {i : ι}
    (hi : i ∈ t.child.links) :
    let s := (calcPositionAndVelocityFK t st).links
    let y : Given modes → K := copiedAccel t s
    (coordRate x + coordRate y) i • axis (s i) = ddq i • axis (s i) := by
  intro s y
  have hsorted : modes.Sorted t := hmodes ▸ sorted_initializeModes t isHighGainMode st.links
  by_cases hmoving : IsMoving (st.links i)
  · have hrate : (coordRate x + coordRate y) i = ddq i := by
      rw [Pi.add_apply]
      by_cases hgain : isHighGainMode i = true
      · have hmem : i ∈ modes.highGainModeJoints := by
          rw [hmodes]
          exact List.mem_filter.2 ⟨hi, decide_eq_true ⟨hmoving, hgain⟩⟩
        obtain ⟨k, hk, rfl⟩ := List.getElem_of_mem hmem
        rw [coordRate_of_notMem x fun htorque ↦ hsorted.disjoint _ htorque hmem, zero_add,
          h.highGain _ hmem]
        exact coordRate_getElem hsorted.highGain_nodup y ⟨k, hk⟩
      · have hmem : i ∈ modes.torqueModeJoints := by
          rw [hmodes]
          exact List.mem_filter.2 ⟨hi, decide_eq_true ⟨hmoving, hgain⟩⟩
        obtain ⟨k, hk, rfl⟩ := List.getElem_of_mem hmem
        rw [coordRate_of_notMem y (hsorted.disjoint _ hmem), add_zero]
        exact (coordRate_getElem hsorted.torque_nodup x ⟨k, hk⟩).trans (h.torque ⟨k, hk⟩).symm
    rw [hrate]
  · have haxis : axis (s i) = 0 := axis_calcPositionAndVelocityFK st hi hmoving
    rw [haxis, smul_zero, smul_zero]

/-- What the equations are, whatever the mode of the root. -/
theorem mulVec_add_b1_eq (t : LinkTree ι) (g : Vector3 K) (isHighGainMode : ι → Bool)
    (st : State ι K modes) (hmodes : modes = initializeModes t isHighGainMode st.links)
    (hcopied : st.ddqGivenCopied = false) {x : Unknown modes → K} {ddq : ι → K}
    (h : IsJointAccel modes (calcPositionAndVelocityFK t st).links x ddq) (d : Unknown modes) :
    let st₁ := calcPositionAndVelocityFK t st
    let st₃ := initializeAccelSolver t (calcMassMatrix t g st₁)
    let e := if modes.given_rootDof then excessAccel (st.links t.root) else 0
    (st₃.M11 *ᵥ x + st₃.b1) d = newtonEulerForce t st₁.links
        (spatialAccel (st₁.links t.root) (rootAccel modes (st₁.links t.root) x) + (g, 0)) ddq
        d.dof + generalizedForce t (st₁.links t.root).p (fun i ↦ axis (st₁.links i))
          (fun k ↦ (inertia (st₁.links k)).toLin (-e, 0)) d.dof +
        motorInertia st₁.links d * x d := by
  intro st₁ st₃ e
  have hsorted : modes.Sorted t := hmodes ▸ sorted_initializeModes t isHighGainMode st.links
  have hd : IsDof t d.dof := d.isDof hsorted.torque_mem
  have hrate : ∀ i ∈ t.child.links, (coordRate x + coordRate
      (copiedAccel t st₁.links : Given modes → K)) i • axis (st₁.links i) =
        ddq i • axis (st₁.links i) := fun i hi ↦ h.smul_axis hmodes hi
  have hconst : generalizedForce t (st₁.links t.root).p (fun i ↦ axis (st₁.links i))
      (fun k ↦ (inertia (st₁.links k)).toLin
        (t.grow (-e, 0) (fun i ↦ (0 : ι → K) i • axis (st₁.links i)) k)) d.dof =
      generalizedForce t (st₁.links t.root).p (fun i ↦ axis (st₁.links i))
        (fun k ↦ (inertia (st₁.links k)).toLin (-e, 0)) d.dof :=
    generalizedForce_congr t _ hd (fun _ _ ↦ rfl) fun k hk ↦ by
      have hzero : (fun i ↦ (0 : ι → K) i • axis (st₁.links i)) = 0 :=
        funext fun i ↦ zero_smul K _
      rw [hzero, t.grow_const _ _ hk]
  rw [mulVec_add_b1 hsorted g st₁ hcopied, rootAccel_eq hsorted g st x,
    newtonEulerForce_congr (fun _ _ ↦ rfl) hrate hd, ← add_zero ddq,
    newtonEulerForce_add t _ _ _ _ _ hd, hconst, add_zero]

/-- **When the equations are the inverse dynamics.** On any body and in any state, `M11 * x + b1`
is the inverse dynamics under the unknown accelerations, the given ones and gravity exactly when,
if the motion of the root is given, no torque-mode joint takes part in carrying the excess
acceleration. The accelerations and torques of the links are kept in any case. -/
theorem isAffineInverseDynamics_iff (t : LinkTree ι) (g : Vector3 K) (isHighGainMode : ι → Bool)
    (st : State ι K modes) (hmodes : modes = initializeModes t isHighGainMode st.links)
    (hcopied : st.ddqGivenCopied = false) :
    let st₁ := calcPositionAndVelocityFK t st
    let st₂ := calcMassMatrix t g st₁
    let st₃ := initializeAccelSolver t st₂
    (IsAffineInverseDynamics t g st₁.links st₃ ∧ Kept t st₁.links st₂.links) ↔
      (modes.given_rootDof = true → ∀ j ∈ modes.torqueModeJoints,
        carryTorque t st₁.links (excessAccel (st.links t.root)) j = 0) := by
  intro st₁ st₂ st₃
  have hsorted : modes.Sorted t := hmodes ▸ sorted_initializeModes t isHighGainMode st.links
  have hkept : Kept t st₁.links st₂.links := (calcMassMatrix_spec hsorted g st₁).2.2.2
  have hcarry : ∀ e, ∀ j ∈ modes.torqueModeJoints,
      generalizedForce t (st₁.links t.root).p (fun i ↦ axis (st₁.links i))
        (fun k ↦ (inertia (st₁.links k)).toLin (-e, 0)) (.inr (.inr j)) =
          -carryTorque t st₁.links e j := fun e j hj ↦ by
    rw [generalizedForce_const (fun i hi ↦ Iwv_calcPositionAndVelocityFK st hi) _ _
      (hsorted.torque_mem j hj)]
    simp only [carryTorque, smul_neg, map_neg, dotProduct_neg]
    ring
  constructor
  · rintro ⟨h, -⟩ hgiven j hj
    obtain ⟨k, hk, rfl⟩ := List.getElem_of_mem hj
    -- the accelerations to try: none at the torque-mode joints
    set ddq : ι → K := fun i ↦
      if i ∈ modes.torqueModeJoints then 0 else (st₁.links i).ddq with hddq
    have hjoint : IsJointAccel modes st₁.links 0 ddq :=
      ⟨fun i ↦ if_pos (List.getElem_mem _),
        fun i hi ↦ if_neg fun htorque ↦ hsorted.disjoint i htorque hi⟩
    have heq := (h 0 ddq hjoint (.inr ⟨k, hk⟩)).symm.trans
      (mulVec_add_b1_eq t g isHighGainMode st hmodes hcopied hjoint (.inr ⟨k, hk⟩))
    rw [if_pos hgiven, add_left_inj, left_eq_add] at heq
    exact neg_eq_zero.1 ((hcarry _ _ hj).symm.trans heq)
  · intro h
    refine ⟨fun x ddq hjoint d ↦ ?_, hkept⟩
    rw [mulVec_add_b1_eq t g isHighGainMode st hmodes hcopied hjoint d, add_left_inj,
      add_eq_left]
    rcases Bool.eq_false_or_eq_true modes.given_rootDof with hgiven | hgiven
    · rw [if_pos hgiven]
      rcases d with ⟨d, hunknown⟩ | k
      · rw [hsorted.root hunknown] at hgiven
        exact absurd hgiven (by decide)
      · refine (hcarry _ _ (List.getElem_mem k.2)).trans (neg_eq_zero.2 ?_)
        exact h hgiven _ (List.getElem_mem k.2)
    · rw [if_neg (by rw [hgiven]; decide)]
      simp only [neg_zero, Prod.mk_zero_zero, map_zero]
      exact generalizedForce_zero t _ _ d.dof

end Main

/-- A lift on a turning base: the base is at `(1, 0, 0)`, with a given angular acceleration about
the third axis, and carries a unit mass on a slide joint along the second axis. -/
def turningLift (i : Fin 2) : Link ℚ :=
  if i = 0 then { Link.blank with jointType := .freeJoint, p := ![1, 0, 0], dw := ![0, 0, 1] }
  else { Link.blank with jointType := .slideJoint, jointId := 0, d := ![0, 1, 0], m := 1 }

/-- The modes of the lift: its base is in high-gain mode. -/
abbrev turningLiftModes : Modes (Fin 2) :=
  initializeModes oneJointTree (fun i ↦ i = 0) turningLift

/-- The solver before the first step with the lift. -/
def turningLiftState : State (Fin 2) ℚ turningLiftModes where
  links := turningLift
  root_w_x_v := 0
  M11 := 0
  M12 := 0
  b1 := 0
  d1 := 0
  ddqGiven := 0
  fextTotal := 0
  tauextTotal := 0
  accelSolverInitialized := false
  ddqGivenCopied := false

theorem isAffineInverseDynamics_iff_turningLift :
    let st₁ := calcPositionAndVelocityFK oneJointTree turningLiftState
    let st₂ := calcMassMatrix oneJointTree 0 st₁
    let st₃ := initializeAccelSolver oneJointTree st₂
    (IsAffineInverseDynamics oneJointTree 0 st₁.links st₃ ∧
        Kept oneJointTree st₁.links st₂.links) ↔
      (turningLiftModes.given_rootDof = true → ∀ j ∈ turningLiftModes.torqueModeJoints,
        carryTorque oneJointTree st₁.links (excessAccel (turningLift 0)) j = 0) :=
  isAffineInverseDynamics_iff oneJointTree 0 (fun i ↦ i = 0) turningLiftState rfl rfl

/-- The equations of the lift have a torque that nothing needs. -/
theorem not_isAffineInverseDynamics_turningLift :
    let st₁ := calcPositionAndVelocityFK oneJointTree turningLiftState
    let st₂ := calcMassMatrix oneJointTree 0 st₁
    let st₃ := initializeAccelSolver oneJointTree st₂
    ¬(IsAffineInverseDynamics oneJointTree 0 st₁.links st₃ ∧
        Kept oneJointTree st₁.links st₂.links) := by
  intro st₁ st₂ st₃ h
  have heq := h.1 0 0 ⟨fun _ ↦ rfl, by decide +kernel⟩ (.inr ⟨0, by decide +kernel⟩)
  revert heq
  decide +kernel

end ForwardDynamicsMM

end OpenHRP
