import OpenHRP.Dynamics.InverseDynamics
import OpenHRP.Foundations.UnitVector
import OpenHRP.Model.Body

/-!
# Forward dynamics by the generalized mass matrix

`ForwardDynamicsMM` divides the accelerations of a body into unknown ones (of a free root and of the
torque-mode joints) and given ones (of a root in high-gain mode and of the high-gain joints), and
solves the equations of motion for the unknown ones. The matrices `M11` and `M12` of the unknown and
the given accelerations and the vector `b1` come from the unit-vector method.

A coordinate is a degree of freedom of the root, if the root has any of the kind, or a position in
a list of joints.

This file has the program, and what `calcMassMatrix` computes (`calcMassMatrix_spec`).
-/

open Matrix

namespace OpenHRP

namespace ForwardDynamicsMM

open ForwardDynamicsABM (accel axis crossVelocity biasForce externalForce calcABMPhase1Joint)

variable {ι K : Type*} [DecidableEq ι] [Field K]

/-! ### The program -/

/-- How `initialize` divides the accelerations of a body. The two `rootDof` are six or zero. -/
structure Modes (ι : Type*) where
  unknown_rootDof : Bool
  given_rootDof : Bool
  torqueModeJoints : List ι
  highGainModeJoints : List ι

/-- The part of `initialize` that divides the accelerations. -/
def initializeModes (t : LinkTree ι) (isHighGainMode : ι → Bool) (s : Store ι K) : Modes ι where
  unknown_rootDof := (s t.root).jointType = .freeJoint ∧ ¬isHighGainMode t.root
  given_rootDof := (s t.root).jointType = .freeJoint ∧ isHighGainMode t.root
  torqueModeJoints := t.child.links.filter fun i ↦ IsMoving (s i) ∧ ¬isHighGainMode i
  highGainModeJoints := t.child.links.filter fun i ↦ IsMoving (s i) ∧ isHighGainMode i

/-- The coordinates of a kind: those of the root, if `rootDof` is set, then the joints. -/
abbrev Coord (rootDof : Bool) (joints : List ι) :=
  {_d : Fin 3 ⊕ Fin 3 // rootDof = true} ⊕ Fin joints.length

/-- The degree of freedom of a coordinate. -/
def Coord.dof {rootDof : Bool} {joints : List ι} : Coord rootDof joints → Dof ι
  | .inl ⟨.inl k, _⟩ => .inl k
  | .inl ⟨.inr k, _⟩ => .inr (.inl k)
  | .inr i => .inr (.inr (joints.get i))

/-- The coordinates of the root, in the order of the loops. -/
def rootCoords (rootDof : Bool) (joints : List ι) : List (Coord rootDof joints) :=
  if h : rootDof = true then
    (List.finRange 3).map (fun k ↦ .inl ⟨.inl k, h⟩) ++
      (List.finRange 3).map fun k ↦ .inl ⟨.inr k, h⟩
  else []

/-- The coordinates of the joints. -/
def jointCoords (rootDof : Bool) (joints : List ι) : List (Coord rootDof joints) :=
  (List.finRange joints.length).map .inr

/-- The coordinates of the unknown accelerations. -/
abbrev Unknown (modes : Modes ι) :=
  Coord modes.unknown_rootDof modes.torqueModeJoints

/-- The coordinates of the given accelerations. -/
abbrev Given (modes : Modes ι) :=
  Coord modes.given_rootDof modes.highGainModeJoints

/-- The members of `ForwardDynamicsMM`. -/
structure State (ι K : Type*) (modes : Modes ι) where
  links : Store ι K
  root_w_x_v : Vector3 K
  M11 : Matrix (Unknown modes) (Unknown modes) K
  M12 : Matrix (Unknown modes) (Given modes) K
  b1 : Unknown modes → K
  d1 : Unknown modes → K
  ddqGiven : Given modes → K
  fextTotal : Vector3 K
  tauextTotal : Vector3 K
  accelSolverInitialized : Bool
  ddqGivenCopied : Bool

/-- `COMMON_CALCS_FOR_ALL_JOINT_TYPES` of `calcPositionAndVelocityFK`. -/
def commonCalcs (link : Link K) : Link K :=
  let wc := link.R *ᵥ link.c + link.p
  let Iw := link.R * link.I * link.Rᵀ
  let c_hat := hat wc
  let Iww := link.m • (c_hat * c_hatᵀ) + Iw
  let P := link.m • (link.vo + cross link.w wc)
  let L := Iww *ᵥ link.w + link.m • cross wc link.vo
  { link with
    v := link.vo + cross link.w link.p, wc := wc, Iww := Iww, Iwv := link.m • c_hat,
    pf := cross link.w P, ptau := cross link.vo P + cross link.w L }

/-- One turn of the loop of `calcPositionAndVelocityFK`. The `switch` over the joint type is that of
`calcABMPhase1`. -/
def calcPositionAndVelocityLink [CMath K] (parent : Option (Link K)) (link : Link K) : Link K :=
  commonCalcs (parent.elim link fun parent ↦ calcABMPhase1Joint parent link)

/-- The part of `calcInverseDynamics` for a link with a parent. -/
def calcInverseDynamicsJoint (parent link : Link K) : Link K :=
  { link with
    dvo := parent.dvo + link.cv + link.ddq • link.sv
    dw := parent.dw + link.cw + link.ddq • link.sw }

/-- `out_f` and `out_tau` of `calcInverseDynamics`, with those of the child. -/
def totalForce (link : Link K) (below : Spatial K) : Spatial K :=
  (link.pf, link.ptau) + below +
    (link.m • link.dvo + link.Iwvᵀ *ᵥ link.dw, link.Iwv *ᵥ link.dvo + link.Iww *ᵥ link.dw)

/-- `calcInverseDynamics` of the root link. -/
def calcInverseDynamics (t : LinkTree ι) (s : Store ι K) : Store ι K × Spatial K :=
  inverseDynamics calcInverseDynamicsJoint totalForce t s

/-- `calcd1` of the root link. -/
def calcd1 (t : LinkTree ι) (s : Store ι K) : Store ι K × Spatial K :=
  inverseDynamics (fun _ link ↦ link) (fun link below ↦ (-link.fext, -link.tauext) + below) t s

/-- `ddq` and `u` of the links below the root as they are in `org`. -/
def restoreJoints (t : LinkTree ι) (org s : Store ι K) : Store ι K :=
  t.jointLoop (fun i link ↦ { link with ddq := (org i).ddq, u := (org i).u }) s

/-- `u` of the links below the root as it is in `org`. -/
def restoreTorques (t : LinkTree ι) (org s : Store ι K) : Store ι K :=
  t.jointLoop (fun i link ↦ { link with u := (org i).u }) s

section Program

variable {modes : Modes ι} {γ : Type*} [DecidableEq γ] (t : LinkTree ι) (g : Vector3 K)

/-- `calcPositionAndVelocityFK`. -/
def calcPositionAndVelocityFK [CMath K] (st : State ι K modes) : State ι K modes :=
  let root := st.links t.root
  let root_w_x_v := cross root.w (root.vo + cross root.w root.p)
  let links := if modes.given_rootDof then
      Function.update st.links t.root { root with vo := root.v - cross root.w root.p }
    else st.links
  { st with
    root_w_x_v := root_w_x_v, links := t.forwardLoop (fun _ ↦ calcPositionAndVelocityLink) links }

/-- `setColumnOfMassMatrix`: the force on the root and the moment about its position, if they are
among the unknowns' equations, and the torques of the torque-mode joints. -/
def setColumnOfMassMatrix (column : γ) (r : Store ι K × Matrix (Unknown modes) γ K) :
    Store ι K × Matrix (Unknown modes) γ K :=
  let out := calcInverseDynamics t r.1
  (out.1, r.2.updateCol column fun row ↦ dofForce t out row.dof)

/-- One turn of a loop over unit accelerations. -/
def setUnitColumn {rootDof : Bool} {joints : List ι}
    (r : Store ι K × Matrix (Unknown modes) (Coord rootDof joints) K)
    (column : Coord rootDof joints) :
    Store ι K × Matrix (Unknown modes) (Coord rootDof joints) K :=
  let r := setColumnOfMassMatrix t column (pushDof t r.1 column.dof, r.2)
  (releaseDof t r.1 column.dof, r.2)

/-- The motor inertia of a coordinate. -/
def motorInertia {rootDof : Bool} {joints : List ι} (s : Store ι K) :
    Coord rootDof joints → K
  | .inl _ => 0
  | .inr i => (s (joints.get i)).Jm2

/-- One turn of the loop over the torque-mode joints, which also adds the motor inertia. -/
def setTorqueModeColumn (r : Store ι K × Matrix (Unknown modes) (Unknown modes) K)
    (j : Unknown modes) : Store ι K × Matrix (Unknown modes) (Unknown modes) K :=
  let r := setUnitColumn t r j
  (r.1, r.2.updateCol j fun k ↦ if k = j then r.2 j j + motorInertia r.1 j else r.2 k j)

/-- `calcMassMatrix`. -/
def calcMassMatrix (st : State ι K modes) : State ι K modes :=
  -- preserve and clear the accelerations
  let org := st.links
  let links := t.jointLoop (fun _ ↦ setDdq 0) org
  let links := Function.update links t.root
    { links t.root with dvo := g - st.root_w_x_v, dw := 0 }
  let r := setColumnOfMassMatrix t (0 : Fin 1) (links, Matrix.of fun k _ ↦ st.b1 k)
  let b1 := fun k ↦ r.2 k 0
  let r11 := (rootCoords _ _).foldl (setUnitColumn t) (r.1, st.M11)
  let r12 := (rootCoords _ _).foldl (setUnitColumn t) (r11.1, st.M12)
  let r11 := (jointCoords _ _).foldl (setTorqueModeColumn t) (r12.1, r11.2)
  let r12 := (jointCoords _ _).foldl (setUnitColumn t) (r11.1, r12.2)
  let links := restoreJoints t org r12.1
  { st with
    -- subtract the constant term
    M11 := Matrix.of fun i j ↦ r11.2 i j - b1 i
    M12 := Matrix.of fun i j ↦ r12.2 i j - b1 i
    b1 := b1
    links := Function.update links t.root
      { links t.root with dvo := (org t.root).dvo, dw := (org t.root).dw }
    accelSolverInitialized := false }

/-- `sumExternalForces`. -/
def sumExternalForces (st : State ι K modes) : State ι K modes :=
  let fextTotal := (t.links.map fun i ↦ (st.links i).fext).sum
  let tauextTotal := (t.links.map fun i ↦ (st.links i).tauext).sum
  { st with
    fextTotal := fextTotal
    tauextTotal := tauextTotal - cross (st.links t.root).p fextTotal }

/-- The accelerations that are copied to `ddqGiven`. -/
def givenAccel (links : Store ι K) : Given modes → K
  | .inl ⟨.inl k, _⟩ => (links t.root).dvo k
  | .inl ⟨.inr k, _⟩ => (links t.root).dw k
  | .inr i => (links (modes.highGainModeJoints.get i)).ddq

/-- The part of `initializeAccelSolver` that copies the given accelerations. -/
def copyGiven (st : State ι K modes) : State ι K modes :=
  if st.ddqGivenCopied then st
  else
    let root := st.links t.root
    let links := if modes.given_rootDof then
        Function.update st.links t.root
          { root with dvo := root.dv - cross root.dw root.p - cross root.w root.v }
      else st.links
    { st with links := links, ddqGiven := givenAccel t links, ddqGivenCopied := true }

/-- `initializeAccelSolver`. -/
def initializeAccelSolver (st : State ι K modes) : State ι K modes :=
  if st.accelSolverInitialized then st
  else
    let st := copyGiven t st
    let out := calcd1 t st.links
    { st with
      b1 := st.b1 + st.M12 *ᵥ st.ddqGiven
      d1 := Sum.elim 0 fun i ↦ (out.1 (modes.torqueModeJoints.get i)).u
      links := restoreTorques t st.links out.1
      accelSolverInitialized := true }

/-- `isNoUnknownAccelMode`. -/
def isNoUnknownAccelMode (modes : Modes ι) : Bool :=
  !modes.unknown_rootDof && modes.torqueModeJoints.isEmpty

/-- `c1` before `d1` and `b1` are subtracted. -/
def setC1 (fext tauext : Vector3 K) (links : Store ι K) : Unknown modes → K
  | .inl ⟨.inl k, _⟩ => fext k
  | .inl ⟨.inr k, _⟩ => tauext k
  | .inr i => (links (modes.torqueModeJoints.get i)).u

/-- The root with the accelerations `a`. -/
def setRootAccel (root_w_x_v : Vector3 K) (a : Unknown modes → K) (root : Link K) : Link K :=
  if h : modes.unknown_rootDof = true then
    let root := { root with dw := fun k ↦ a (.inl ⟨.inr k, h⟩) }
    let dv : Vector3 K := fun k ↦ a (.inl ⟨.inl k, h⟩)
    { root with dvo := dv - cross root.dw root.p - root_w_x_v }
  else root

/-- The loop that sets the accelerations of the torque-mode joints to `c`. -/
def setTorqueModeAccel (c : Unknown modes → K) (links : Store ι K) : Store ι K :=
  (List.finRange modes.torqueModeJoints.length).foldl (fun links i ↦
    let link := modes.torqueModeJoints.get i
    Function.update links link (setDdq (c (.inr i)) (links link))) links

/-- `solveUnknownAccels` of an external force and torque. The linear solver
(`M11.colPivHouseholderQr().solve`) is a parameter. -/
def solveUnknownAccelsFor
    (solve : Matrix (Unknown modes) (Unknown modes) K → (Unknown modes → K) → Unknown modes → K)
    (fext tauext : Vector3 K) (st : State ι K modes) : State ι K modes :=
  let c1 := setC1 fext tauext st.links
  let c1 := c1 - st.d1
  let c1 := c1 - st.b1
  let a := solve st.M11 c1
  let links := Function.update st.links t.root
    (setRootAccel st.root_w_x_v a (st.links t.root))
  -- the joints get `c1`, and not `a`
  { st with links := setTorqueModeAccel c1 links }

/-- `solveUnknownAccels`. -/
def solveUnknownAccels
    (solve : Matrix (Unknown modes) (Unknown modes) K → (Unknown modes → K) → Unknown modes → K)
    (st : State ι K modes) : State ι K modes :=
  if isNoUnknownAccelMode modes then st
  else
    let st := initializeAccelSolver t st
    solveUnknownAccelsFor t solve st.fextTotal st.tauextTotal st

end Program

/-! ### The pass over a body -/

/-- The spatial inertia that `totalForce` applies. -/
def inertia (link : Link K) : BlockInertia K :=
  ⟨link.m • 1, link.Iwv, link.Iww⟩

/-- The force that moves a link alone. -/
def linkForce (link : Link K) : Spatial K :=
  (inertia link).toLin (accel link) + biasForce link

theorem totalForce_eq (link : Link K) (below : Spatial K) :
    totalForce link below = linkForce link + below := by
  have hmass : (link.m • (1 : Matrix33 K)) *ᵥ link.dvo = link.m • link.dvo := by
    rw [smul_mulVec, one_mulVec]
  have htoLin : (inertia link).toLin (accel link) =
      (link.m • link.dvo + link.Iwvᵀ *ᵥ link.dw, link.Iwv *ᵥ link.dvo + link.Iww *ᵥ link.dw) := by
    rw [← hmass]
    rfl
  rw [totalForce, linkForce, htoLin, biasForce, add_right_comm, add_comm (link.pf, link.ptau)]

/-- What the pass does not overwrite. -/
def clearAccel (link : Link K) : Link K :=
  { link with dvo := 0, dw := 0, u := 0 }

theorem eq_of_clearAccel_eq {L L' : Link K} (h : atRest (clearAccel L) = atRest (clearAccel L')) :
    L' = { L with dvo := L'.dvo, dw := L'.dw, ddq := L'.ddq, u := L'.u } :=
  eq_of_atRest_eq h

theorem accelAffine_calcInverseDynamics :
    AccelAffine calcInverseDynamicsJoint linkForce clearAccel
      (fun link : Link K ↦ (inertia link).toLin) where
  step_drive _ _ _ := rfl
  force_drive _ _ := rfl
  clear_drive _ _ := rfl
  clear_step _ _ := rfl
  clear_ddq _ := rfl
  clear_setDdq _ _ := rfl
  step_rest P P' L L' hP hL := by
    rw [eq_of_atRest_eq hP, eq_of_clearAccel_eq hL]
    rfl
  step_accel P P' L L' hP hL := by
    rw [eq_of_atRest_eq hP, eq_of_clearAccel_eq hL]
    show accel P + crossVelocity L + L.ddq • axis L -
      (accel P' + crossVelocity L + L'.ddq • axis L) =
      accel P - accel P' + (L.ddq - L'.ddq) • axis L
    module
  inertia_congr L L' h := by
    rw [eq_of_atRest_eq h]
    rfl
  force_sub L L' h := by
    rw [eq_of_atRest_eq h, map_sub]
    exact add_sub_add_right_eq_sub _ _ _

theorem passResult_calcInverseDynamics (t : LinkTree ι) (s : Store ι K) :
    PassResult calcInverseDynamicsJoint linkForce t s (calcInverseDynamics t s) :=
  passResult_inverseDynamics totalForce_eq accelAffine_calcInverseDynamics.step_drive
    accelAffine_calcInverseDynamics.force_drive t s

/-- The forces of a recursive Newton-Euler pass over links in the state `s`, whose root has the
spatial acceleration `a` and whose joints have the accelerations `ddq`. -/
def newtonEulerForce (t : LinkTree ι) (s : Store ι K) (a : Spatial K) (ddq : ι → K) (d : Dof ι) :
    K :=
  let A := t.grow a fun i ↦ crossVelocity (s i) + ddq i • axis (s i)
  generalizedForce t (s t.root).p (fun i ↦ axis (s i))
    (fun k ↦ (inertia (s k)).toLin (A k) + biasForce (s k)) d

/-- The program's pass is such a pass. -/
theorem dofForce_calcInverseDynamics (t : LinkTree ι) (s : Store ι K) {d : Dof ι}
    (hd : IsDof t d) : dofForce t (calcInverseDynamics t s) d =
      newtonEulerForce t s (accel (s t.root)) (fun i ↦ (s i).ddq) d := by
  have hr := passResult_calcInverseDynamics t s
  set r := calcInverseDynamics t s
  have hrest : ∀ i ∈ t.links, atRest (r.1 i) = atRest (s i) := by
    refine t.parent_induction (by rw [hr.root]; rfl) fun p c hpc _ ↦ ?_
    rw [hr.joint p c hpc]
    rfl
  set A := t.grow (accel (s t.root)) fun i ↦ crossVelocity (s i) + (s i).ddq • axis (s i)
  have hA : ∀ i ∈ t.links, accel (r.1 i) = A i := by
    refine t.eq_grow (V := fun i ↦ accel (r.1 i)) (by rw [hr.root]; rfl) fun p c hpc ↦ ?_
    rw [hr.joint p c hpc, ← add_assoc]
    rfl
  have hforce : ∀ k ∈ t.links,
      linkForce (r.1 k) = (inertia (s k)).toLin (A k) + biasForce (s k) := fun k hk ↦ by
    rw [← hA k hk, eq_of_atRest_eq (hrest k hk)]
    rfl
  have hp : (r.1 t.root).p = (s t.root).p := by rw [hr.root]; rfl
  have hsum : r.2 = (t.links.map fun k ↦ (inertia (s k)).toLin (A k) + biasForce (s k)).sum := by
    rw [hr.out, List.map_congr_left hforce]
  rcases d with i | i | j
  · rw [dofForce, hsum]
    rfl
  · rw [dofForce, hsum, hp]
    rfl
  · obtain ⟨p, hpj⟩ := t.exists_parent_of_mem_child hd
    have hsub : t.subtreeSum (fun k ↦ linkForce (r.1 k)) j =
        t.subtreeSum (fun k ↦ (inertia (s k)).toLin (A k) + biasForce (s k)) j :=
      t.subtreeSum_congr fun k hk ↦
        hforce k ((t.below_sublist (List.mem_cons_of_mem _ hd)).subset hk)
    rw [dofForce, hr.joint p j hpj, hsub]
    rfl

/-- Two passes over links that differ in their accelerations and torques only. -/
theorem newtonEulerForce_congr {t : LinkTree ι} {s s' : Store ι K}
    (h : ∀ i ∈ t.links, atRest (s i) = atRest (s' i)) {a : Spatial K} {ddq ddq' : ι → K}
    (hddq : ∀ i ∈ t.child.links, ddq i • axis (s i) = ddq' i • axis (s i)) {d : Dof ι}
    (hd : IsDof t d) : newtonEulerForce t s a ddq d = newtonEulerForce t s' a ddq' d := by
  have hchild : ∀ i ∈ t.child.links, atRest (s i) = atRest (s' i) := fun i hi ↦
    h i (List.mem_cons_of_mem _ hi)
  have hp : (s t.root).p = (s' t.root).p := (congrArg Link.p (h _ t.root_mem) :)
  have hA : ∀ k ∈ t.links, t.grow a (fun i ↦ crossVelocity (s i) + ddq i • axis (s i)) k =
      t.grow a (fun i ↦ crossVelocity (s' i) + ddq' i • axis (s' i)) k :=
    t.grow_congr fun i hi ↦ by
      have hcross : crossVelocity (s i) = crossVelocity (s' i) :=
        (congrArg crossVelocity (hchild i hi) :)
      rw [hddq i hi, hcross, axis_congr (hchild i hi)]
  rw [newtonEulerForce, newtonEulerForce, hp]
  refine generalizedForce_congr t _ hd (fun i hi ↦ axis_congr (hchild i hi)) fun k hk ↦ ?_
  have hbias : biasForce (s k) = biasForce (s' k) := (congrArg biasForce (h k hk) :)
  have hinertia : inertia (s k) = inertia (s' k) := (congrArg inertia (h k hk) :)
  rw [hA k hk, hbias, hinertia]

/-- **Inverse dynamics is affine** in the accelerations. -/
theorem newtonEulerForce_add (t : LinkTree ι) (s : Store ι K) (a a' : Spatial K)
    (ddq ddq' : ι → K) {d : Dof ι} (hd : IsDof t d) :
    newtonEulerForce t s (a + a') (ddq + ddq') d = newtonEulerForce t s a ddq d +
      generalizedForce t (s t.root).p (fun i ↦ axis (s i))
        (fun k ↦ (inertia (s k)).toLin (t.grow a' (fun i ↦ ddq' i • axis (s i)) k)) d := by
  rw [newtonEulerForce, newtonEulerForce, ← generalizedForce_add]
  refine generalizedForce_congr t _ hd (fun _ _ ↦ rfl) fun k hk ↦ ?_
  have hrate : (fun i ↦ crossVelocity (s i) + (ddq + ddq') i • axis (s i)) =
      (fun i ↦ crossVelocity (s i) + ddq i • axis (s i)) + fun i ↦ ddq' i • axis (s i) := by
    funext i
    rw [Pi.add_apply, Pi.add_apply, add_smul, add_assoc]
  rw [hrate, t.grow_add _ _ _ _ hk, map_add, add_right_comm]

/-! ### The columns -/

/-- The joints of both kinds are links below the root, each listed once. -/
structure Modes.Sorted (t : LinkTree ι) (modes : Modes ι) : Prop where
  torque_nodup : modes.torqueModeJoints.Nodup
  torque_mem : ∀ i ∈ modes.torqueModeJoints, i ∈ t.child.links
  highGain_nodup : modes.highGainModeJoints.Nodup
  highGain_mem : ∀ i ∈ modes.highGainModeJoints, i ∈ t.child.links
  disjoint : ∀ i ∈ modes.torqueModeJoints, i ∉ modes.highGainModeJoints
  root : modes.unknown_rootDof = true → modes.given_rootDof = false

omit [DecidableEq ι] [Field K] in
theorem sorted_initializeModes (t : LinkTree ι) (isHighGainMode : ι → Bool) (s : Store ι K) :
    (initializeModes t isHighGainMode s).Sorted t where
  torque_nodup := t.child_nodup.filter _
  torque_mem _ hi := List.mem_of_mem_filter hi
  highGain_nodup := t.child_nodup.filter _
  highGain_mem _ hi := List.mem_of_mem_filter hi
  disjoint i hi hi' := by
    have htorque := of_decide_eq_true (List.mem_filter.1 hi).2
    have hgain := of_decide_eq_true (List.mem_filter.1 hi').2
    exact htorque.2 hgain.2
  root h := by
    have h := of_decide_eq_true h
    exact decide_eq_false fun hc ↦ h.2 hc.2

section

omit [DecidableEq ι]

variable {rootDof : Bool}

theorem Coord.isDof {t : LinkTree ι} {joints : List ι}
    (hjoints : ∀ i ∈ joints, i ∈ t.child.links) (d : Coord rootDof joints) : IsDof t d.dof := by
  rcases d with ⟨k | k, _⟩ | i
  · trivial
  · trivial
  · exact hjoints _ (List.getElem_mem _)

theorem nodup_rootCoords (rootDof : Bool) (joints : List ι) :
    (rootCoords rootDof joints).Nodup := by
  rw [rootCoords]
  split_ifs with h
  · refine List.nodup_append.2 ⟨(List.nodup_finRange 3).map fun k k' e ↦ by simpa using e,
      (List.nodup_finRange 3).map fun k k' e ↦ by simpa using e, ?_⟩
    simp
  · exact List.nodup_nil

theorem nodup_jointCoords (rootDof : Bool) (joints : List ι) :
    (jointCoords rootDof joints).Nodup :=
  (List.nodup_finRange _).map Sum.inr_injective

theorem inl_mem_rootCoords (joints : List ι) (d : {_d : Fin 3 ⊕ Fin 3 // rootDof = true}) :
    .inl d ∈ rootCoords rootDof joints ∧ .inl d ∉ jointCoords rootDof joints := by
  obtain ⟨d, h⟩ := d
  rw [rootCoords, dif_pos h, jointCoords]
  rcases d with k | k <;> simp

theorem inr_mem_jointCoords {joints : List ι} (i : Fin joints.length) :
    .inr i ∉ rootCoords rootDof joints ∧ .inr i ∈ jointCoords rootDof joints := by
  rw [rootCoords, jointCoords]
  split_ifs <;> simp

end

/-- An entry of the inertia of the links in the state `s`. -/
def entry (t : LinkTree ι) (s : Store ι K) : Dof ι → Dof ι → K :=
  massEntry t (s t.root).p (fun i ↦ axis (s i)) fun k ↦ (inertia (s k)).toLin

theorem entry_congr {t : LinkTree ι} {s s' : Store ι K}
    (h : ∀ i ∈ t.links, atRest (s i) = atRest (s' i)) : entry t s = entry t s' := by
  have hp : (s t.root).p = (s' t.root).p := (congrArg Link.p (h _ t.root_mem) :)
  have hfield : ∀ d, ∀ k ∈ t.links, unitField t (s t.root).p (fun i ↦ axis (s i)) d k =
      unitField t (s' t.root).p (fun i ↦ axis (s' i)) d k := fun d ↦ by
    rw [hp]
    exact t.grow_congr fun i hi ↦ congrArg (unitRate d i • ·)
      (axis_congr (h i (List.mem_cons_of_mem _ hi)))
  funext d e
  refine congrArg List.sum (List.map_congr_left fun k hk ↦ ?_)
  have hinertia : (inertia (s k)).toLin = (inertia (s' k)).toLin :=
    (congrArg (fun link ↦ (inertia link).toLin) (h k hk) :)
  rw [hfield d k hk, hfield e k hk]
  exact congrArg (fun G : Spatial K →ₗ[K] Spatial K ↦ spatialDot _ (G _)) hinertia

section Columns

variable {modes : Modes ι} {t : LinkTree ι}

theorem atRest_calcInverseDynamics (t : LinkTree ι) (s : Store ι K) : ∀ i ∈ t.links,
    atRest ((calcInverseDynamics t s).1 i) = atRest (s i) := by
  have hr := passResult_calcInverseDynamics t s
  refine t.parent_induction (by rw [hr.root]; rfl) fun p c hpc _ ↦ ?_
  rw [hr.joint p c hpc]
  rfl

/-- A column measured in a state that a pass reads as `s₀`. -/
theorem setUnitColumn_eq (hmodes : modes.Sorted t) {rootDof : Bool} {joints : List ι}
    (hjoints : ∀ i ∈ joints, i ∈ t.child.links) {s s₀ : Store ι K} (hs₀ : Cleared t s₀)
    (hs : SameInputs clearAccel t s s₀) (e : Coord rootDof joints)
    (M : Matrix (Unknown modes) (Coord rootDof joints) K) :
    let r := setUnitColumn t (s, M) e
    SameInputs clearAccel t r.1 s₀ ∧ r.2 = M.updateCol e fun d ↦
      dofForce t (calcInverseDynamics t s₀) d.dof + entry t s₀ d.dof e.dof := by
  intro r
  have hlaw := accelAffine_calcInverseDynamics (K := K)
  have hr₀ := passResult_calcInverseDynamics t s₀
  have hout := passResult_calcInverseDynamics t (pushDof t s e.dof)
  have he : IsDof t e.dof := e.isDof hjoints
  refine ⟨(hlaw.releaseDof_spec (hlaw.cleared hs hs₀) he (hlaw.sameInputs hout)).trans hs, ?_⟩
  show M.updateCol e _ = M.updateCol e _
  congr 1
  funext d
  rw [hlaw.dofForce_pushDof hs hs₀ (d.isDof hmodes.torque_mem) he hout hr₀,
    ← entry_congr (atRest_calcInverseDynamics t s₀)]
  rfl

/-- A column of a torque-mode joint has its motor inertia on the diagonal. -/
theorem setTorqueModeColumn_eq (hmodes : modes.Sorted t) {s s₀ : Store ι K}
    (hs₀ : Cleared t s₀) (hs : SameInputs clearAccel t s s₀) (e : Unknown modes)
    (M : Matrix (Unknown modes) (Unknown modes) K) :
    let r := setTorqueModeColumn t (s, M) e
    SameInputs clearAccel t r.1 s₀ ∧ r.2 = M.updateCol e fun d ↦
      dofForce t (calcInverseDynamics t s₀) d.dof +
        (entry t s₀ d.dof e.dof + if d = e then motorInertia s₀ d else 0) := by
  intro r
  obtain ⟨hsame, hM⟩ := setUnitColumn_eq hmodes hmodes.torque_mem hs₀ hs e M
  refine ⟨hsame, ?_⟩
  have hmotor : motorInertia (setUnitColumn t (s, M) e).1 e = motorInertia s₀ e := by
    rcases e with e | i
    · rfl
    · exact (congrArg Link.Jm2 (hsame.joint _ (hmodes.torque_mem _ (List.getElem_mem i.2))) :)
  show (setUnitColumn t (s, M) e).2.updateCol e _ = _
  rw [hmotor, hM]
  ext d e'
  rcases eq_or_ne e' e with rfl | hne
  · rw [Matrix.updateCol_self, Matrix.updateCol_self, Matrix.updateCol_self,
      Matrix.updateCol_self]
    split_ifs with hde
    · rw [hde, add_assoc]
    · rw [add_zero]
  · rw [Matrix.updateCol_ne hne, Matrix.updateCol_ne hne, Matrix.updateCol_ne hne]

/-- Accelerations and torques are as before, and so is everything else a pass reads. -/
structure Kept (t : LinkTree ι) (s s' : Store ι K) : Prop where
  rest : ∀ i ∈ t.links, atRest (s' i) = atRest (s i)
  ddq : ∀ i ∈ t.links, (s' i).ddq = (s i).ddq
  u : ∀ i ∈ t.child.links, (s' i).u = (s i).u
  root : accel (s' t.root) = accel (s t.root)

/-- The links in which `calcMassMatrix` measures the columns. -/
def clearedStore (t : LinkTree ι) (g : Vector3 K) (st : State ι K modes) : Store ι K :=
  let links := t.jointLoop (fun _ ↦ setDdq 0) st.links
  Function.update links t.root { links t.root with dvo := g - st.root_w_x_v, dw := 0 }

theorem clearedStore_root (g : Vector3 K) (st : State ι K modes) :
    clearedStore t g st t.root = { st.links t.root with dvo := g - st.root_w_x_v, dw := 0 } := by
  rw [clearedStore, Function.update_self, t.jointLoop_of_notMem _ _ t.root_notMem_child]

theorem clearedStore_joint (g : Vector3 K) (st : State ι K modes) {i : ι}
    (hi : i ∈ t.child.links) : clearedStore t g st i = setDdq 0 (st.links i) := by
  rw [clearedStore, Function.update_of_ne (t.ne_root_of_mem_child hi), t.jointLoop_of_mem _ _ hi]

theorem cleared_clearedStore (g : Vector3 K) (st : State ι K modes) :
    Cleared t (clearedStore t g st) :=
  ⟨by rw [clearedStore_root], fun i hi ↦ by rw [clearedStore_joint g st hi]; rfl⟩

theorem atRest_clearedStore (g : Vector3 K) (st : State ι K modes) :
    ∀ i ∈ t.links, atRest (clearedStore t g st i) = atRest (st.links i) := fun i hi ↦ by
  rcases List.mem_cons.1 hi with rfl | hi
  · rw [clearedStore_root]
    rfl
  · rw [clearedStore_joint g st hi]
    rfl

/-- **The mass matrices and the bias.** On any body and in any state, `calcMassMatrix` fills `M11`
and `M12` with the inertia of the links, `M11` with the motor inertias as well, and `b1` with the
forces of a pass without accelerations of the unknown and given kinds; it keeps the links. -/
theorem calcMassMatrix_spec (hmodes : modes.Sorted t) (g : Vector3 K) (st : State ι K modes) :
    let st' := calcMassMatrix t g st
    (∀ d e, st'.M11 d e =
        entry t st.links d.dof e.dof + if d = e then motorInertia st.links d else 0) ∧
      (∀ d e, st'.M12 d e = entry t st.links d.dof e.dof) ∧
      (∀ d, st'.b1 d = newtonEulerForce t st.links (g - st.root_w_x_v, 0) 0 d.dof) ∧
      Kept t st.links st'.links := by
  intro st'
  set s₀ := clearedStore t g st with hs₀
  have hcleared : Cleared t s₀ := cleared_clearedStore g st
  have hrest₀ : ∀ i ∈ t.links, atRest (s₀ i) = atRest (st.links i) := atRest_clearedStore g st
  set r₀ := calcInverseDynamics t s₀ with hr₀
  have hP₀ : SameInputs clearAccel t r₀.1 s₀ :=
    accelAffine_calcInverseDynamics.sameInputs (passResult_calcInverseDynamics t s₀)
  have hunit : ∀ {rootDof : Bool} {joints : List ι}, (∀ i ∈ joints, i ∈ t.child.links) →
      ∀ s (M : Matrix (Unknown modes) (Coord rootDof joints) K) e, SameInputs clearAccel t s s₀ →
        SameInputs clearAccel t (setUnitColumn t (s, M) e).1 s₀ ∧
          (setUnitColumn t (s, M) e).2 = M.updateCol e fun d ↦
            dofForce t r₀ d.dof + entry t s₀ d.dof e.dof :=
    fun hjoints s M e hs ↦ setUnitColumn_eq hmodes hjoints hcleared hs e M
  have htorque : ∀ s M e, SameInputs clearAccel t s s₀ →
      SameInputs clearAccel t (setTorqueModeColumn t (s, M) e).1 s₀ ∧
        (setTorqueModeColumn t (s, M) e).2 = M.updateCol e fun d ↦ dofForce t r₀ d.dof +
          (entry t s₀ d.dof e.dof + if d = e then motorInertia s₀ d else 0) :=
    fun s M e hs ↦ setTorqueModeColumn_eq hmodes hcleared hs e M
  -- the four loops, in the order of the program
  obtain ⟨hP₁, hin₁, -⟩ := foldl_updateCol (P := fun s ↦ SameInputs clearAccel t s s₀)
    (f := setUnitColumn t) (g := id)
    (c := fun (e : Unknown modes) d ↦ dofForce t r₀ d.dof + entry t s₀ d.dof e.dof)
    (hunit hmodes.torque_mem) Function.injective_id (nodup_rootCoords _ _) (r := (r₀.1, st.M11)) hP₀
  set r₁ := (rootCoords modes.unknown_rootDof modes.torqueModeJoints).foldl (setUnitColumn t)
    (r₀.1, st.M11) with hr₁
  obtain ⟨hP₂, hin₂, -⟩ := foldl_updateCol (P := fun s ↦ SameInputs clearAccel t s s₀)
    (f := setUnitColumn t) (g := id)
    (c := fun (e : Given modes) (d : Unknown modes) ↦
      dofForce t r₀ d.dof + entry t s₀ d.dof e.dof)
    (hunit hmodes.highGain_mem) Function.injective_id (nodup_rootCoords _ _)
    (r := (r₁.1, st.M12)) hP₁
  set r₂ := (rootCoords modes.given_rootDof modes.highGainModeJoints).foldl (setUnitColumn t)
    (r₁.1, st.M12) with hr₂
  obtain ⟨hP₃, hin₃, hout₃⟩ := foldl_updateCol (P := fun s ↦ SameInputs clearAccel t s s₀)
    (f := setTorqueModeColumn t) (g := id)
    (c := fun (e : Unknown modes) d ↦ dofForce t r₀ d.dof +
      (entry t s₀ d.dof e.dof + if d = e then motorInertia s₀ d else 0))
    htorque Function.injective_id (nodup_jointCoords _ _) (r := (r₂.1, r₁.2)) hP₂
  set r₃ := (jointCoords modes.unknown_rootDof modes.torqueModeJoints).foldl
    (setTorqueModeColumn t) (r₂.1, r₁.2) with hr₃
  obtain ⟨hP₄, hin₄, hout₄⟩ := foldl_updateCol (P := fun s ↦ SameInputs clearAccel t s s₀)
    (f := setUnitColumn t) (g := id)
    (c := fun (e : Given modes) (d : Unknown modes) ↦
      dofForce t r₀ d.dof + entry t s₀ d.dof e.dof)
    (hunit hmodes.highGain_mem) Function.injective_id (nodup_jointCoords _ _)
    (r := (r₃.1, r₂.2)) hP₃
  set r₄ := (jointCoords modes.given_rootDof modes.highGainModeJoints).foldl (setUnitColumn t)
    (r₃.1, r₂.2) with hr₄
  have hb : ∀ d, st'.b1 d = dofForce t r₀ d.dof := fun d ↦
    (Matrix.updateCol_self (M := Matrix.of fun k (_ : Fin 1) ↦ st.b1 k) :)
  have hM11 : ∀ d e, st'.M11 d e = r₃.2 d e - st'.b1 d := fun _ _ ↦ rfl
  have hM12 : ∀ d e, st'.M12 d e = r₄.2 d e - st'.b1 d := fun _ _ ↦ rfl
  have hlinks : st'.links = Function.update (restoreJoints t st.links r₄.1) t.root
      { restoreJoints t st.links r₄.1 t.root with
        dvo := (st.links t.root).dvo, dw := (st.links t.root).dw } := rfl
  have hmotor : ∀ d : Unknown modes, motorInertia s₀ d = motorInertia st.links d := fun d ↦ by
    rcases d with d | i
    · rfl
    · exact (congrArg Link.Jm2
        (hrest₀ _ (List.mem_cons_of_mem _ (hmodes.torque_mem _ (List.getElem_mem i.2)))) :)
  refine ⟨fun d e ↦ ?_, fun d e ↦ ?_, fun d ↦ ?_, ?_⟩
  · rw [hM11, hb, ← entry_congr hrest₀, ← hmotor]
    rcases e with e | i
    · have hzero : (if d = .inl e then motorInertia s₀ d else 0) = 0 := by
        split_ifs with hd
        · rw [hd]
          rfl
        · rfl
      obtain ⟨hmem, hnot⟩ := inl_mem_rootCoords modes.torqueModeJoints e
      rw [hout₃ (.inl e) (fun k hk heq ↦ hnot (heq ▸ hk)) d, hzero, add_zero]
      exact sub_eq_iff_eq_add'.2 (hin₁ _ hmem d)
    · exact sub_eq_iff_eq_add'.2 (hin₃ _ (inr_mem_jointCoords i).2 d)
  · rw [hM12, hb, ← entry_congr hrest₀]
    rcases e with e | i
    · obtain ⟨hmem, hnot⟩ := inl_mem_rootCoords modes.highGainModeJoints e
      rw [hout₄ (.inl e) (fun k hk heq ↦ hnot (heq ▸ hk)) d]
      exact sub_eq_iff_eq_add'.2 (hin₂ _ hmem d)
    · exact sub_eq_iff_eq_add'.2 (hin₄ _ (inr_mem_jointCoords i).2 d)
  · have hd : IsDof t d.dof := d.isDof hmodes.torque_mem
    have hroot : accel (s₀ t.root) = (g - st.root_w_x_v, 0) := by rw [hs₀, clearedStore_root]; rfl
    rw [hb, hr₀, dofForce_calcInverseDynamics t s₀ hd, hroot]
    exact newtonEulerForce_congr hrest₀ (fun i hi ↦ by rw [hcleared.ddq i hi]; rfl) hd
  · have hroot : st'.links t.root = { r₄.1 t.root with
        dvo := (st.links t.root).dvo, dw := (st.links t.root).dw } := by
      rw [hlinks, Function.update_self, restoreJoints,
        t.jointLoop_of_notMem _ _ t.root_notMem_child]
    have hjoint : ∀ i ∈ t.child.links, st'.links i = { r₄.1 i with
        ddq := (st.links i).ddq, u := (st.links i).u } := fun i hi ↦ by
      rw [hlinks, Function.update_of_ne (t.ne_root_of_mem_child hi), restoreJoints,
        t.jointLoop_of_mem _ _ hi]
    have hrest₄ : ∀ i ∈ t.child.links, atRest (r₄.1 i) = atRest (st.links i) := fun i hi ↦
      (congrArg atRest (hP₄.joint i hi)).trans (hrest₀ i (List.mem_cons_of_mem _ hi))
    have hroot₄ : withoutTorque (r₄.1 t.root) = withoutTorque (s₀ t.root) := hP₄.root
    rw [hs₀, clearedStore_root] at hroot₄
    refine ⟨fun i hi ↦ ?_, fun i hi ↦ ?_, fun i hi ↦ ?_, ?_⟩
    · rcases List.mem_cons.1 hi with rfl | hi
      · rw [hroot]
        exact (congrArg atRest hroot₄ :)
      · rw [hjoint i hi]
        exact hrest₄ i hi
    · rcases List.mem_cons.1 hi with rfl | hi
      · rw [hroot]
        exact (congrArg Link.ddq hroot₄ :)
      · rw [hjoint i hi]
    · rw [hjoint i hi]
    · rw [hroot]
      rfl

end Columns

end ForwardDynamicsMM

end OpenHRP
