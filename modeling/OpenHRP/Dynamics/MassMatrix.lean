import OpenHRP.Dynamics.KineticEnergy
import OpenHRP.Dynamics.InverseDynamics
import OpenHRP.Foundations.UnitVector
import OpenHRP.Model.Body

/-!
# The mass matrix of a body

`Body::calcMassMatrix` fills the mass matrix by the unit-vector method: one run of
`Body::calcInverseDynamics` for every unit acceleration, less the run without acceleration.

The inverse dynamics takes `a` for the axis of every joint that is not fixed, so the joint of a
slide, whose axis is `d`, moves nothing there. The matrix is the inertia of the body exactly when
that does not show (`isMassMatrix_calcMassMatrix_iff`).
-/

open Matrix

namespace OpenHRP

open ForwardDynamicsABM (accel axis)

variable {ι K : Type*} [DecidableEq ι] [Field K]

/-! ### The program -/

/-- The part of `Body::calcInverseDynamics` for a link with a parent. -/
def calcInverseDynamicsJoint (parent link : Link K) : Link K :=
  let sw := if link.jointType ≠ .fixedJoint then parent.R *ᵥ link.a else 0
  let sv := if link.jointType ≠ .fixedJoint then cross link.p sw else 0
  let dsv := cross parent.w sv + cross parent.vo sw
  let dsw := cross parent.w sw
  { link with
    vo := parent.vo + link.dq • sv
    w := parent.w + link.dq • sw
    dw := parent.dw + link.dq • dsw + link.ddq • sw
    dvo := parent.dvo + link.dq • dsv + link.ddq • sv
    sw := sw
    sv := sv }

/-- `out_f` and `out_tau` of `Body::calcInverseDynamics` before the children are added. -/
def ownInverseForce (link : Link K) : Spatial K :=
  let c := link.R *ᵥ link.c + link.p
  let I := link.R * link.I * link.Rᵀ + link.m • (hat c * (hat c)ᵀ)
  let P := link.m • (link.vo + cross link.w c)
  let L := link.m • cross c link.vo + I *ᵥ link.w
  (link.m • (link.dvo + cross link.dw c) + cross link.w P,
    link.m • cross c link.dvo + I *ᵥ link.dw + cross link.vo P + cross link.w L)

/-- `Body::calcInverseDynamics` of the root link. -/
def calcInverseDynamics (t : LinkTree ι) (s : Store ι K) : Store ι K × Spatial K :=
  inverseDynamics calcInverseDynamicsJoint (fun link below ↦ ownInverseForce link + below) t s

section Program

variable {n : ℕ} {γ : Type*} [DecidableEq γ] (t : LinkTree ι) (joint : Fin n → Option ι)

/-- `Body::setColumnOfMassMatrix` of a body that is not static: the force and the moment on the
root, and the joint torques. -/
def setColumnOfMassMatrix (column : γ) (r : Store ι K × Matrix (Dof (Fin n)) γ K) :
    Store ι K × Matrix (Dof (Fin n)) γ K :=
  let out := calcInverseDynamics t r.1
  let f := out.2.1
  let tau := out.2.2 - cross (out.1 t.root).p f
  (out.1, r.2.updateCol column
    (Sum.elim f (Sum.elim tau fun i ↦ (joint i).elim 0 fun ptr ↦ (out.1 ptr).u)))

/-- The columns of the root. -/
def setRootColumn (d : Fin 3 ⊕ Fin 3) (r : Store ι K × Matrix (Dof (Fin n)) (Dof (Fin n)) K) :
    Store ι K × Matrix (Dof (Fin n)) (Dof (Fin n)) K :=
  let d' : Dof ι := d.elim .inl (.inr ∘ .inl)
  let column : Dof (Fin n) := d.elim .inl (.inr ∘ .inl)
  let r := setColumnOfMassMatrix t joint column (pushDof t r.1 d', r.2)
  (releaseDof t r.1 d', r.2)

/-- The column of a joint, with the motor inertia on the diagonal. The empty joint is no link of
the tree, and has none. -/
def setJointColumn (i : Fin n) (r : Store ι K × Matrix (Dof (Fin n)) (Dof (Fin n)) K) :
    Store ι K × Matrix (Dof (Fin n)) (Dof (Fin n)) K :=
  let j : Dof (Fin n) := .inr (.inr i)
  match joint i with
  | none => setColumnOfMassMatrix t joint j r
  | some ptr =>
    let r := setColumnOfMassMatrix t joint j (pushDof t r.1 (.inr (.inr ptr)), r.2)
    let M := r.2.updateCol j fun k ↦ if k = j then r.2 j j + (r.1 ptr).Jm2 else r.2 k j
    (releaseDof t r.1 (.inr (.inr ptr)), M)

/-- A loop over the joints that rewrites each link. -/
def forJoints (F : Fin n → Link K → Link K) (s : Store ι K) : Store ι K :=
  (List.finRange n).foldl (fun s i ↦ (joint i).elim s fun ptr ↦
    Function.update s ptr (F i (s ptr))) s

/-- `root->dvo = g - root_w_x_v; root->dw.setZero();` -/
def clearRootAccel (g : Vector3 K) (root : Link K) : Link K :=
  let root_w_x_v := cross root.w (root.vo + cross root.w root.p)
  { root with dvo := g - root_w_x_v, dw := 0 }

/-- The loops of `calcMassMatrix` over the unit accelerations. -/
def setColumns (r : Store ι K × Matrix (Dof (Fin n)) (Dof (Fin n)) K) :
    Store ι K × Matrix (Dof (Fin n)) (Dof (Fin n)) K :=
  let r := (List.finRange 3).foldl (fun r i ↦ setRootColumn t joint (.inl i) r) r
  let r := (List.finRange 3).foldl (fun r i ↦ setRootColumn t joint (.inr i) r) r
  (List.finRange n).foldl (fun r i ↦ setJointColumn t joint i r) r

/-- `Body::calcMassMatrix` of a body that is not static. The matrices `out_M` and `b1` hold
`unwritten` and `unwrittenB` after they are resized. -/
def calcMassMatrix (unwritten : Matrix (Dof (Fin n)) (Dof (Fin n)) K)
    (unwrittenB : Matrix (Dof (Fin n)) (Fin 1) K) (s : Store ι K) :
    Store ι K × Matrix (Dof (Fin n)) (Dof (Fin n)) K :=
  let g : Vector3 K := ![0, 0, 9.8]
  -- preserve and clear the joint accelerations and the root link acceleration
  let org := fun i ↦ (joint i).map s
  let rootorg := s t.root
  let s := forJoints joint (fun _ ↦ setDdq 0) s
  let s := Function.update s t.root (clearRootAccel g (s t.root))
  let r := setColumnOfMassMatrix t joint 0 (s, unwrittenB)
  let b1 := r.2
  let r := setColumns t joint (r.1, unwritten)
  -- subtract the constant term
  let M := Matrix.of fun i j ↦ r.2 i j - b1 i 0
  -- recover state
  let s := forJoints joint (fun i link ↦ (org i).elim link fun o ↦
    { link with ddq := o.ddq, u := o.u }) r.1
  (Function.update s t.root { s t.root with dvo := rootorg.dvo, dw := rootorg.dw }, M)

end Program

/-! ### What the program computes -/

/-- What `calcInverseDynamicsJoint` does not overwrite. -/
def clearMotion (link : Link K) : Link K :=
  { link with vo := 0, w := 0, dvo := 0, dw := 0, sw := 0, sv := 0, u := 0 }

theorem eq_of_clearMotion_eq {L L' : Link K}
    (h : atRest (clearMotion L) = atRest (clearMotion L')) :
    L' = { L with
      vo := L'.vo, w := L'.w, sw := L'.sw, sv := L'.sv
      dvo := L'.dvo, dw := L'.dw, ddq := L'.ddq, u := L'.u } :=
  (congrArg (fun M : Link K ↦ { M with
      vo := L'.vo, w := L'.w, sw := L'.sw, sv := L'.sv
      dvo := L'.dvo, dw := L'.dw, ddq := L'.ddq, u := L'.u }) h.symm :)

/-- `ownInverseForce` is the inertia of the link applied to its acceleration, and terms that
depend on velocities. -/
theorem ownInverseForce_eq (link : Link K) :
    ownInverseForce link = (linkInertia link).toLin (accel link) +
      ownInverseForce { link with dvo := 0, dw := 0 } := by
  rw [linkInertia_toLin]
  have hc : link.R *ᵥ link.c + link.p = centerOfMass link := add_comm _ _
  simp only [ownInverseForce, hc]
  set c := centerOfMass link
  refine Prod.ext ?_ ?_
  · show _ = link.m • (link.dvo + link.dw ⨯₃ c) + (link.m • (0 + 0 ⨯₃ c) + _)
    rw [LinearMap.map_zero₂, add_zero, smul_zero, zero_add]
  · show _ = (link.R * link.I * link.Rᵀ) *ᵥ link.dw + c ⨯₃ (link.m • (link.dvo + link.dw ⨯₃ c)) +
      (link.m • c ⨯₃ 0 + (link.R * link.I * link.Rᵀ + link.m • (hat c * (hat c)ᵀ)) *ᵥ 0 + _ + _)
    rw [add_mulVec, smul_mulVec, hat_mul_transpose_mulVec, mulVec_zero, LinearMap.map_zero,
      smul_zero, LinearMap.map_smul (crossProduct c), LinearMap.map_add (crossProduct c),
      smul_add link.m (c ⨯₃ link.dvo)]
    module

/-- The acceleration that the motion of the parent and of the joint gives a link. -/
def crossAccel (parent link : Link K) : Spatial K :=
  let link' := calcInverseDynamicsJoint parent link
  (link.dq • (cross parent.w link'.sv + cross parent.vo link'.sw),
    link.dq • cross parent.w link'.sw)

theorem accelAffine_calcInverseDynamics :
    AccelAffine calcInverseDynamicsJoint ownInverseForce clearMotion
      (fun link : Link K ↦ (linkInertia link).toLin) where
  step_drive _ _ _ := rfl
  force_drive _ _ := rfl
  clear_drive _ _ := rfl
  clear_step _ _ := rfl
  clear_ddq _ := rfl
  clear_setDdq _ _ := rfl
  step_rest P P' L L' hP hL := by
    rw [eq_of_atRest_eq hP, eq_of_clearMotion_eq hL]
    rfl
  step_accel P P' L L' hP hL := by
    rw [eq_of_atRest_eq hP, eq_of_clearMotion_eq hL]
    set b := crossAccel P L
    show accel P + b + L.ddq • axis (calcInverseDynamicsJoint P L) -
        (accel P' + b + L'.ddq • axis (calcInverseDynamicsJoint P L)) =
      accel P - accel P' + (L.ddq - L'.ddq) • axis (calcInverseDynamicsJoint P L)
    module
  inertia_congr L L' h := by
    rw [eq_of_atRest_eq h]
    rfl
  force_sub L L' h := by
    rw [ownInverseForce_eq L, ownInverseForce_eq L', eq_of_atRest_eq h, map_sub]
    exact add_sub_add_right_eq_sub _ _ _

/-- The pass of `Body::calcInverseDynamics`. -/
theorem passResult_calcInverseDynamics (t : LinkTree ι) (s : Store ι K) :
    PassResult calcInverseDynamicsJoint ownInverseForce t s (calcInverseDynamics t s) := by
  have hlaw := accelAffine_calcInverseDynamics (K := K)
  exact passResult_inverseDynamics (fun _ _ ↦ rfl) hlaw.step_drive hlaw.force_drive t s

section Columns

variable {n : ℕ} {t : LinkTree ι} {joint : Fin n → Option ι} {link : Fin n → ι}

/-- The joints are the links below the root, in the order of `link`. -/
structure Lists (t : LinkTree ι) (joint : Fin n → Option ι) (link : Fin n → ι) : Prop where
  eq : ∀ k, joint k = some (link k)
  injective : Function.Injective link
  mem : ∀ k, link k ∈ t.child.links
  exists_eq : ∀ i ∈ t.child.links, ∃ k, link k = i

/-- The degree of freedom of the tree that a row or column stands for. -/
def place (link : Fin n → ι) : Dof (Fin n) → Dof ι :=
  Sum.map id (Sum.map id link)

omit [DecidableEq ι] in
theorem Lists.isDof (h : Lists t joint link) (d : Dof (Fin n)) : IsDof t (place link d) := by
  rcases d with k | k | k
  · trivial
  · trivial
  · exact h.mem k

omit [Field K] in
theorem Lists.forJoints_apply (h : Lists t joint link) (F : Fin n → Link K → Link K)
    (s : Store ι K) :
    (∀ k, forJoints joint F s (link k) = F k (s (link k))) ∧
      ∀ i, i ∉ t.child.links → forJoints joint F s i = s i := by
  have hstep : (fun (s : Store ι K) i ↦ (joint i).elim s fun ptr ↦
      Function.update s ptr (F i (s ptr))) =
        fun s k ↦ Function.update s (link k) (F k (s (link k))) := by
    funext s k
    rw [h.eq, Option.elim_some]
  obtain ⟨hin, hout⟩ := foldl_update_apply h.injective F (List.nodup_finRange n) s
  rw [forJoints, hstep]
  exact ⟨fun k ↦ hin k (List.mem_finRange k), fun i hi ↦ hout i fun k _ e ↦ hi (e ▸ h.mem k)⟩

/-- A column lists what the pass leaves for the degrees of freedom. -/
theorem Lists.setColumnOfMassMatrix_eq (h : Lists t joint link) {γ : Type*} [DecidableEq γ]
    (column : γ) (s : Store ι K) (M : Matrix (Dof (Fin n)) γ K) :
    setColumnOfMassMatrix t joint column (s, M) = ((calcInverseDynamics t s).1,
      M.updateCol column fun d ↦ dofForce t (calcInverseDynamics t s) (place link d)) := by
  rw [setColumnOfMassMatrix]
  dsimp only
  generalize calcInverseDynamics t s = out
  congr 2
  funext d
  rcases d with k | k | k
  · rfl
  · rfl
  · show (joint k).elim 0 _ = _
    rw [h.eq, Option.elim_some]
    rfl

/-- The state in which the columns are measured: no acceleration but that of gravity. -/
def clearedStore (t : LinkTree ι) (joint : Fin n → Option ι) (s : Store ι K) : Store ι K :=
  let s := forJoints joint (fun _ ↦ setDdq 0) s
  Function.update s t.root (clearRootAccel ![0, 0, 9.8] (s t.root))

theorem Lists.cleared_clearedStore (h : Lists t joint link) (s : Store ι K) :
    Cleared t (clearedStore t joint s) := by
  refine ⟨?_, fun i hi ↦ ?_⟩
  · rw [clearedStore, Function.update_self]
    rfl
  · obtain ⟨k, rfl⟩ := h.exists_eq i hi
    rw [clearedStore, Function.update_of_ne (t.ne_root_of_mem_child hi),
      (h.forJoints_apply _ s).1 k]
    rfl

variable {s s₀ : Store ι K}

/-- A column of the root in a state that a pass reads as `s₀`. -/
theorem Lists.setRootColumn_eq (h : Lists t joint link) (hs₀ : Cleared t s₀)
    (hs : SameInputs clearMotion t s s₀) (d : Fin 3 ⊕ Fin 3)
    (M : Matrix (Dof (Fin n)) (Dof (Fin n)) K) :
    let r₀ := calcInverseDynamics t s₀
    let e : Dof (Fin n) := d.elim .inl (.inr ∘ .inl)
    let r := setRootColumn t joint d (s, M)
    SameInputs clearMotion t r.1 s₀ ∧ r.2 = M.updateCol e fun d ↦ dofForce t r₀ (place link d) +
      massEntry t (r₀.1 t.root).p (fun i ↦ axis (r₀.1 i)) (fun i ↦ (linkInertia (r₀.1 i)).toLin)
        (place link d) (place link e) := by
  intro r₀ e r
  have hlaw := accelAffine_calcInverseDynamics (K := K)
  have hr₀ : PassResult calcInverseDynamicsJoint ownInverseForce t s₀ r₀ :=
    passResult_calcInverseDynamics t s₀
  set e' : Dof ι := d.elim .inl (.inr ∘ .inl) with he'
  have hplace : place link e = e' := by cases d <;> rfl
  have hout := passResult_calcInverseDynamics t (pushDof t s e')
  have he : IsDof t e' := hplace ▸ h.isDof e
  have hr : r = (releaseDof t (calcInverseDynamics t (pushDof t s e')).1 e', M.updateCol e fun d ↦
      dofForce t (calcInverseDynamics t (pushDof t s e')) (place link d)) := by
    show (releaseDof t (setColumnOfMassMatrix t joint e (pushDof t s e', M)).1 e',
      (setColumnOfMassMatrix t joint e (pushDof t s e', M)).2) = _
    rw [h.setColumnOfMassMatrix_eq]
  rw [hr]
  refine ⟨(hlaw.releaseDof_spec (hlaw.cleared hs hs₀) he (hlaw.sameInputs hout)).trans hs, ?_⟩
  show M.updateCol e _ = M.updateCol e _
  rw [hplace]
  congr 1
  exact funext fun d ↦ hlaw.dofForce_pushDof hs hs₀ (h.isDof d) he hout hr₀

/-- The column of a joint in a state that a pass reads as `s₀`. -/
theorem Lists.setJointColumn_eq (h : Lists t joint link) (hs₀ : Cleared t s₀)
    (hs : SameInputs clearMotion t s s₀) (k : Fin n) (M : Matrix (Dof (Fin n)) (Dof (Fin n)) K) :
    let r₀ := calcInverseDynamics t s₀
    let e : Dof (Fin n) := .inr (.inr k)
    let r := setJointColumn t joint k (s, M)
    SameInputs clearMotion t r.1 s₀ ∧ r.2 = M.updateCol e fun d ↦ dofForce t r₀ (place link d) +
      (massEntry t (r₀.1 t.root).p (fun i ↦ axis (r₀.1 i))
        (fun i ↦ (linkInertia (r₀.1 i)).toLin) (place link d) (place link e) +
          if d = e then (s₀ (link k)).Jm2 else 0) := by
  intro r₀ e r
  have hlaw := accelAffine_calcInverseDynamics (K := K)
  have hr₀ : PassResult calcInverseDynamicsJoint ownInverseForce t s₀ r₀ :=
    passResult_calcInverseDynamics t s₀
  set e' : Dof ι := .inr (.inr (link k)) with he'
  have hout := passResult_calcInverseDynamics t (pushDof t s e')
  have he : IsDof t e' := h.mem k
  set out := calcInverseDynamics t (pushDof t s e') with houtdef
  have hjm : (out.1 (link k)).Jm2 = (s₀ (link k)).Jm2 := by
    have hlinks := (hlaw.pushDof_spec (hlaw.cleared hs hs₀) he).1
    have hclear := (hlaw.sameInputs hout).joint (link k) (h.mem k)
    have h₁ : (out.1 (link k)).Jm2 = (pushDof t s e' (link k)).Jm2 :=
      (congrArg Link.Jm2 hclear :)
    have h₂ : (pushDof t s e' (link k)).Jm2 = (s (link k)).Jm2 :=
      (congrArg Link.Jm2 (hlinks.joint (link k) (h.mem k)) :)
    have h₃ : (s (link k)).Jm2 = (s₀ (link k)).Jm2 :=
      (congrArg Link.Jm2 (hs.joint (link k) (h.mem k)) :)
    rw [h₁, h₂, h₃]
  have hr : r = (releaseDof t out.1 e', M.updateCol e fun d ↦
      if d = e then dofForce t out (place link e) + (s₀ (link k)).Jm2
      else dofForce t out (place link d)) := by
    show setJointColumn t joint k (s, M) = _
    rw [setJointColumn, h.eq]
    simp only [h.setColumnOfMassMatrix_eq, Matrix.updateCol_self]
    rw [← houtdef, hjm]
    refine Prod.ext rfl (Matrix.ext fun d c ↦ ?_)
    simp only [Matrix.updateCol_apply]
    split_ifs <;> rfl
  rw [hr]
  refine ⟨(hlaw.releaseDof_spec (hlaw.cleared hs hs₀) he (hlaw.sameInputs hout)).trans hs, ?_⟩
  show M.updateCol e _ = M.updateCol e _
  congr 1
  funext d
  have hcol : dofForce t out (place link d) = dofForce t r₀ (place link d) +
      massEntry t (r₀.1 t.root).p (fun i ↦ axis (r₀.1 i))
        (fun i ↦ (linkInertia (r₀.1 i)).toLin) (place link d) (place link e) :=
    hlaw.dofForce_pushDof hs hs₀ (h.isDof d) he hout hr₀
  split_ifs with hd
  · rw [← hd, hcol, hd, add_assoc]
  · rw [hcol, add_zero]

/-- The motor inertia of a degree of freedom. -/
def motorInertia (s : Store ι K) : Dof ι → K
  | .inl _ => 0
  | .inr (.inl _) => 0
  | .inr (.inr j) => (s j).Jm2

/-- What the loops leave in the matrix. -/
theorem Lists.setColumns_eq (h : Lists t joint link) (hs₀ : Cleared t s₀)
    (hs : SameInputs clearMotion t s s₀) (M : Matrix (Dof (Fin n)) (Dof (Fin n)) K)
    (d e : Dof (Fin n)) :
    let r₀ := calcInverseDynamics t s₀
    (setColumns t joint (s, M)).2 d e = dofForce t r₀ (place link d) +
      (massEntry t (r₀.1 t.root).p (fun i ↦ axis (r₀.1 i))
        (fun i ↦ (linkInertia (r₀.1 i)).toLin) (place link d) (place link e) +
          if d = e then motorInertia s₀ (place link d) else 0) := by
  intro r₀
  obtain ⟨A, hA⟩ : ∃ A : Dof (Fin n) → Dof (Fin n) → K, A = fun d e ↦
      massEntry t (r₀.1 t.root).p (fun i ↦ axis (r₀.1 i)) (fun i ↦ (linkInertia (r₀.1 i)).toLin)
        (place link d) (place link e) := ⟨_, rfl⟩
  have hlinear : ∀ s M k, SameInputs clearMotion t s s₀ →
      SameInputs clearMotion t (setRootColumn t joint (.inl k) (s, M)).1 s₀ ∧
        (setRootColumn t joint (.inl k) (s, M)).2 = M.updateCol (.inl k) fun d ↦
          dofForce t r₀ (place link d) + A d (.inl k) := fun s M k hs ↦ by
    rw [hA]
    exact h.setRootColumn_eq hs₀ hs (.inl k) M
  have hangular : ∀ s M k, SameInputs clearMotion t s s₀ →
      SameInputs clearMotion t (setRootColumn t joint (.inr k) (s, M)).1 s₀ ∧
        (setRootColumn t joint (.inr k) (s, M)).2 = M.updateCol (.inr (.inl k)) fun d ↦
          dofForce t r₀ (place link d) + A d (.inr (.inl k)) := fun s M k hs ↦ by
    rw [hA]
    exact h.setRootColumn_eq hs₀ hs (.inr k) M
  have hjoint : ∀ s M k, SameInputs clearMotion t s s₀ →
      SameInputs clearMotion t (setJointColumn t joint k (s, M)).1 s₀ ∧
        (setJointColumn t joint k (s, M)).2 = M.updateCol (.inr (.inr k)) fun d ↦
          dofForce t r₀ (place link d) + (A d (.inr (.inr k)) +
            if d = .inr (.inr k) then (s₀ (link k)).Jm2 else 0) := fun s M k hs ↦ by
    rw [hA]
    exact h.setJointColumn_eq hs₀ hs k M
  obtain ⟨hP₁, hin₁, -⟩ := foldl_updateCol (P := fun s ↦ SameInputs clearMotion t s s₀)
    (f := fun r k ↦ setRootColumn t joint (.inl k) r) (g := fun k ↦ .inl k)
    (c := fun k d ↦ dofForce t r₀ (place link d) + A d (.inl k)) hlinear
    Sum.inl_injective (List.nodup_finRange 3) (r := (s, M)) hs
  obtain ⟨hP₂, hin₂, hout₂⟩ := foldl_updateCol (P := fun s ↦ SameInputs clearMotion t s s₀)
    (f := fun r k ↦ setRootColumn t joint (.inr k) r) (g := fun k ↦ .inr (.inl k))
    (c := fun k d ↦ dofForce t r₀ (place link d) + A d (.inr (.inl k))) hangular
      (Sum.inr_injective.comp Sum.inl_injective)
    (List.nodup_finRange 3) hP₁
  obtain ⟨-, hin₃, hout₃⟩ := foldl_updateCol (P := fun s ↦ SameInputs clearMotion t s s₀)
    (f := fun r k ↦ setJointColumn t joint k r) (g := fun k ↦ .inr (.inr k))
    (c := fun k d ↦ dofForce t r₀ (place link d) + (A d (.inr (.inr k)) +
      if d = .inr (.inr k) then (s₀ (link k)).Jm2 else 0)) hjoint
        (Sum.inr_injective.comp Sum.inr_injective)
    (List.nodup_finRange n) hP₂
  have hzero : ∀ e, motorInertia s₀ (place link e) = 0 →
      (if d = e then motorInertia s₀ (place link d) else 0) = 0 := fun e he ↦ by
    split_ifs with hd
    · rw [hd, he]
    · rfl
  have hval : (setColumns t joint (s, M)).2 d e = dofForce t r₀ (place link d) +
      (A d e + if d = e then motorInertia s₀ (place link d) else 0) := by
    rcases e with k | k | k
    · rw [hzero (.inl k) rfl, add_zero]
      exact (hout₃ _ (by simp) d).trans
        ((hout₂ _ (by simp) d).trans (hin₁ k (List.mem_finRange k) d))
    · rw [hzero (.inr (.inl k)) rfl, add_zero]
      exact (hout₃ _ (by simp) d).trans (hin₂ k (List.mem_finRange k) d)
    · have hmotor : (if d = .inr (.inr k) then motorInertia s₀ (place link d) else 0) =
          if d = .inr (.inr k) then (s₀ (link k)).Jm2 else 0 := by
        split_ifs with hd
        · rw [hd]
          rfl
        · rfl
      rw [hmotor]
      exact hin₃ k (List.mem_finRange k) d
  rw [hval, hA]

/-- **The mass matrix**, entry by entry: the inertia forces of one unit acceleration along the
other, and the motor inertias on the diagonal. -/
theorem Lists.calcMassMatrix_apply (h : Lists t joint link)
    (unwritten : Matrix (Dof (Fin n)) (Dof (Fin n)) K)
    (unwrittenB : Matrix (Dof (Fin n)) (Fin 1) K) (s : Store ι K) (d e : Dof (Fin n)) :
    let r₀ := calcInverseDynamics t (clearedStore t joint s)
    (calcMassMatrix t joint unwritten unwrittenB s).2 d e =
      massEntry t (r₀.1 t.root).p (fun i ↦ axis (r₀.1 i)) (fun i ↦ (linkInertia (r₀.1 i)).toLin)
          (place link d) (place link e) +
        if d = e then motorInertia s (place link d) else 0 := by
  intro r₀
  have hcleared : Cleared t (clearedStore t joint s) := h.cleared_clearedStore s
  have hmotor : motorInertia (clearedStore t joint s) (place link d) =
      motorInertia s (place link d) := by
    rcases d with k | k | k
    · rfl
    · rfl
    · show (clearedStore t joint s (link k)).Jm2 = (s (link k)).Jm2
      rw [clearedStore, Function.update_of_ne (t.ne_root_of_mem_child (h.mem k)),
        (h.forJoints_apply _ s).1 k]
      rfl
  have hP₀ : SameInputs clearMotion t r₀.1 (clearedStore t joint s) :=
    accelAffine_calcInverseDynamics.sameInputs (passResult_calcInverseDynamics t _)
  have hcol := h.setColumns_eq hcleared hP₀ unwritten d e
  have hM : (calcMassMatrix t joint unwritten unwrittenB s).2 d e =
      (setColumns t joint (r₀.1, unwritten)).2 d e - dofForce t r₀ (place link d) := by
    have hb := h.setColumnOfMassMatrix_eq (0 : Fin 1) (clearedStore t joint s) unwrittenB
    have hb₁ : (setColumnOfMassMatrix t joint (0 : Fin 1)
        (clearedStore t joint s, unwrittenB)).1 = r₀.1 := by rw [hb]
    have hb₂ : (setColumnOfMassMatrix t joint (0 : Fin 1)
        (clearedStore t joint s, unwrittenB)).2 d 0 = dofForce t r₀ (place link d) :=
      (congrArg (fun r ↦ r.2 d 0) hb).trans Matrix.updateCol_self
    have hdef : (calcMassMatrix t joint unwritten unwrittenB s).2 d e =
        (setColumns t joint ((setColumnOfMassMatrix t joint (0 : Fin 1)
          (clearedStore t joint s, unwrittenB)).1, unwritten)).2 d e -
          (setColumnOfMassMatrix t joint (0 : Fin 1)
            (clearedStore t joint s, unwrittenB)).2 d 0 := by
      rw [calcMassMatrix, clearedStore]
      exact Matrix.of_apply _ d e
    rw [hdef, hb₁, hb₂]
  rw [hM, hcol, add_sub_cancel_left, hmotor]

end Columns
/-! ### The matrix as a form on motions -/

/-- The axis that `calcInverseDynamics` uses for the joint of a link. -/
def massAxis (t : LinkTree ι) (s : Store ι K) (i : ι) : Spatial K :=
  (t.parent i).elim 0 fun p ↦ axis (calcInverseDynamicsJoint (s p) (s i))

/-- The joint rates of a generalized velocity: the root's linear and angular velocity, then those
of the joints. -/
def jointRate {n : ℕ} (joint : Fin n → Option ι) (x : Dof (Fin n) → K) (i : ι) : K :=
  ∑ k, if joint k = some i then x (.inr (.inr k)) else 0

/-- The spatial velocity of the root under a generalized velocity. -/
def rootVelocity {n : ℕ} (p : Vector3 K) (x : Dof (Fin n) → K) : Spatial K :=
  spatialVelocity p (fun k ↦ x (.inl k)) fun k ↦ x (.inr (.inl k))

section Form

variable {n : ℕ} {t : LinkTree ι} {joint : Fin n → Option ι} {link : Fin n → ι}

/-- The matrix in terms of the links as they are given. -/
theorem Lists.calcMassMatrix_eq (h : Lists t joint link)
    (unwritten : Matrix (Dof (Fin n)) (Dof (Fin n)) K)
    (unwrittenB : Matrix (Dof (Fin n)) (Fin 1) K) (s : Store ι K) (d e : Dof (Fin n)) :
    (calcMassMatrix t joint unwritten unwrittenB s).2 d e =
      inertiaForm t s (unitField t (s t.root).p (massAxis t s) (place link d))
          (unitField t (s t.root).p (massAxis t s) (place link e)) +
        if d = e then motorInertia s (place link d) else 0 := by
  have happly := h.calcMassMatrix_apply unwritten unwrittenB s d e
  set s₀ := clearedStore t joint s with hs₀
  have hr₀ := passResult_calcInverseDynamics t s₀
  set r₀ := calcInverseDynamics t s₀ with hr₀def
  have hlaw := accelAffine_calcInverseDynamics (K := K)
  -- neither clearing the accelerations nor the pass touches the data of the links
  have hdata : ∀ i ∈ t.links, clearMotion (setDdq 0 (r₀.1 i)) = clearMotion (setDdq 0 (s i)) :=
    fun i hi ↦ by
      rcases List.mem_cons.1 hi with rfl | hi
      · rw [hr₀.root, hs₀, clearedStore, Function.update_self,
          (h.forJoints_apply _ s).2 _ t.root_notMem_child]
        rfl
      · obtain ⟨k, rfl⟩ := h.exists_eq i hi
        rw [hlaw.clear_setDdq, hlaw.clear_eq hr₀ _ hi, hs₀, clearedStore,
          Function.update_of_ne (t.ne_root_of_mem_child hi), (h.forJoints_apply _ s).1 k]
        rfl
  have hp : (r₀.1 t.root).p = (s t.root).p := (congrArg Link.p (hdata t.root t.root_mem) :)
  have hinertia : ∀ i ∈ t.links, linkInertia (r₀.1 i) = linkInertia (s i) := fun i hi ↦
    (congrArg linkInertia (hdata i hi) :)
  have haxis : ∀ i ∈ t.child.links, axis (r₀.1 i) = massAxis t s i := fun i hi ↦ by
    obtain ⟨p, hpi⟩ := t.exists_parent_of_mem_child hi
    have hs₀i : axis (calcInverseDynamicsJoint (r₀.1 p) (s₀ i)) =
        axis (calcInverseDynamicsJoint (r₀.1 p) (s i)) := by
      obtain ⟨k, rfl⟩ := h.exists_eq i hi
      rw [hs₀, clearedStore, Function.update_of_ne (t.ne_root_of_mem_child hi),
        (h.forJoints_apply _ s).1 k]
      rfl
    have hparent : axis (calcInverseDynamicsJoint (r₀.1 p) (s i)) =
        axis (calcInverseDynamicsJoint (s p) (s i)) :=
      (congrArg (fun P ↦ axis (calcInverseDynamicsJoint P (s i))) (hdata p (t.parent_mem hpi).1) :)
    rw [massAxis, hpi, Option.elim_some, ← hparent, ← hs₀i, hr₀.joint p i hpi]
    rfl
  have hfield : ∀ d' : Dof ι, ∀ k ∈ t.links,
      unitField t (r₀.1 t.root).p (fun i ↦ axis (r₀.1 i)) d' k =
        unitField t (s t.root).p (massAxis t s) d' k := fun d' k hk ↦ by
    rw [hp]
    exact t.grow_congr (fun i hi ↦ congrArg (unitRate d' i • ·) (haxis i hi)) k hk
  rw [happly, massEntry]
  congr 1
  refine congrArg List.sum (List.map_congr_left fun k hk ↦ ?_)
  rw [hfield _ k hk, hfield _ k hk, hinertia k hk]

/-- The motion of a generalized velocity is the sum of the unit motions. -/
theorem Lists.motionField_eq_sum (h : Lists t joint link) (p : Vector3 K) (S : ι → Spatial K)
    (x : Dof (Fin n) → K) : ∀ i ∈ t.links,
      motionField t S (rootVelocity p x) (jointRate joint x) i =
        ∑ d, x d • unitField t p S (place link d) i := by
  have hroot : ∑ d, x d • unitField t p S (place link d) t.root = rootVelocity p x := by
    have hunit : ∀ d : Dof ι, unitField t p S d t.root = unitRoot p d := fun d ↦ t.grow_root _ _
    have hzero : ∀ k, x (.inr (.inr k)) • unitRoot p (place link (.inr (.inr k))) = 0 := fun k ↦
      smul_zero _
    simp only [hunit, Fintype.sum_sum_type]
    rw [Finset.sum_congr rfl fun k _ ↦ hzero k, Finset.sum_const_zero, add_zero]
    exact sum_smul_unitRoot p (fun k ↦ x (.inl k)) fun k ↦ x (.inr (.inl k))
  have hrate : ∀ c, ∑ d, x d • ((unitRate (place link d) c : K) • S c) =
      jointRate joint x c • S c := fun c ↦ by
    simp only [← smul_assoc, ← Finset.sum_smul, Fintype.sum_sum_type]
    have hzero : ∀ k : Fin 3, x (.inl k) • (unitRate (place link (.inl k)) c : K) = 0 ∧
        x (.inr (.inl k)) • (unitRate (place link (.inr (.inl k))) c : K) = 0 := fun k ↦
      ⟨smul_zero _, smul_zero _⟩
    have hjoint : ∀ k, x (.inr (.inr k)) • (unitRate (place link (.inr (.inr k))) c : K) =
        if joint k = some c then x (.inr (.inr k)) else 0 := fun k ↦ by
      show x (.inr (.inr k)) • (Pi.single (link k) 1 : ι → K) c = _
      rw [Pi.single_apply, smul_eq_mul, mul_ite, mul_one, mul_zero]
      simp only [h.eq, Option.some_inj, eq_comm]
    rw [Finset.sum_congr rfl fun k _ ↦ (hzero k).1, Finset.sum_congr rfl fun k _ ↦ (hzero k).2,
      Finset.sum_congr rfl fun k _ ↦ hjoint k, Finset.sum_const_zero, zero_add, zero_add]
    rfl
  intro i hi
  refine (t.eq_grow (V := fun i ↦ ∑ d, x d • unitField t p S (place link d) i) hroot
    (fun q c hqc ↦ ?_) i hi).symm
  rw [← hrate, ← Finset.sum_add_distrib]
  refine Finset.sum_congr rfl fun d _ ↦ ?_
  rw [← smul_add]
  exact congrArg (x d • ·) (t.grow_child _ _ hqc)

/-- **The mass matrix as a form**: on the motions along the axes the program uses, with the motor
inertias. -/
theorem Lists.dotProduct_calcMassMatrix (h : Lists t joint link)
    (unwritten : Matrix (Dof (Fin n)) (Dof (Fin n)) K)
    (unwrittenB : Matrix (Dof (Fin n)) (Fin 1) K) (s : Store ι K) (x y : Dof (Fin n) → K) :
    x ⬝ᵥ (calcMassMatrix t joint unwritten unwrittenB s).2 *ᵥ y =
      inertiaForm t s
          (motionField t (massAxis t s) (rootVelocity (s t.root).p x) (jointRate joint x))
          (motionField t (massAxis t s) (rootVelocity (s t.root).p y) (jointRate joint y)) +
        ∑ k, (s (link k)).Jm2 * x (.inr (.inr k)) * y (.inr (.inr k)) := by
  set p := (s t.root).p with hp
  set S := massAxis t s with hS
  have hfield : ∀ x : Dof (Fin n) → K, ∀ i ∈ t.links,
      motionField t S (rootVelocity p x) (jointRate joint x) i =
        (∑ d, x d • unitField t p S (place link d)) i := fun x i hi ↦ by
    rw [h.motionField_eq_sum p S x i hi, Finset.sum_apply]
    rfl
  have hmotor : ∑ d, x d * (motorInertia s (place link d) * y d) =
      ∑ k, (s (link k)).Jm2 * x (.inr (.inr k)) * y (.inr (.inr k)) := by
    rw [Fintype.sum_sum_type, Fintype.sum_sum_type]
    have hzero : ∀ k : Fin 3, x (.inl k) * (motorInertia s (place link (.inl k)) * y (.inl k)) = 0 ∧
        x (.inr (.inl k)) * (motorInertia s (place link (.inr (.inl k))) * y (.inr (.inl k))) = 0 :=
      fun k ↦ by simp [place, motorInertia]
    rw [Finset.sum_congr rfl fun k _ ↦ (hzero k).1, Finset.sum_congr rfl fun k _ ↦ (hzero k).2,
      Finset.sum_const_zero, zero_add, zero_add]
    refine Finset.sum_congr rfl fun k _ ↦ ?_
    show x _ * ((s (link k)).Jm2 * y _) = _
    ring
  rw [inertiaForm_congr (hfield x) (hfield y), inertiaForm_sum, ← hmotor, ← Finset.sum_add_distrib]
  refine Finset.sum_congr rfl fun d _ ↦ ?_
  rw [← mul_add]
  congr 1
  simp only [mulVec, dotProduct, h.calcMassMatrix_eq, add_mul, Finset.sum_add_distrib, ite_mul,
    zero_mul, Finset.sum_ite_eq, Finset.mem_univ, if_true]
  simp only [mul_comm (inertiaForm t s _ _)]
  rfl

end Form
/-! ### When the matrix is the inertia of the body -/

/-- `M` is the joint-space inertia: symmetric, and its quadratic form is twice the kinetic energy
of the motion with the given velocity of the root and joint rates, motors included. -/
structure IsMassMatrix {n : ℕ} (t : LinkTree ι) (s : Store ι K) (joint : Fin n → Option ι)
    (M : Matrix (Dof (Fin n)) (Dof (Fin n)) K) : Prop where
  symm : M.IsSymm
  energy : ∀ (x : Dof (Fin n) → K) (v w : ι → Vector3 K), IsMotion t s (jointRate joint x) v w →
    v t.root = (fun k ↦ x (.inl k)) → w t.root = (fun k ↦ x (.inr (.inl k))) →
    (x ⬝ᵥ M *ᵥ x) / 2 = kineticEnergy t s v w +
      ∑ k, (joint k).elim 0 (fun j ↦ (s j).Jm2 * x (.inr (.inr k)) ^ 2 / 2)

/-- The joints have their axes where the model files put them. -/
def HasJointAxis (link : Link K) : Prop :=
  (link.jointType = .rotationalJoint ∧ link.d = 0) ∨ (link.jointType = .slideJoint ∧ link.a = 0)

instance [DecidableEq K] (link : Link K) : Decidable (HasJointAxis link) :=
  inferInstanceAs (Decidable (_ ∨ _))

/-- The inertia tensors below a link, in world axes. -/
def rotaryInertia (t : LinkTree ι) (s : Store ι K) (i : ι) : Matrix33 K :=
  t.subtreeSum (fun k ↦ worldInertia (s k)) i

/-- What the pass does not see of the body is not there: the antisymmetric parts of the inertia
tensors cancel over the body and about every rotational axis, and no slide joint gives the subtree
it carries momentum, or moment about the rotational joints within it. -/
structure SeenByPass (t : LinkTree ι) (s : Store ι K) : Prop where
  symm : (rotaryInertia t s t.root).IsSymm
  axis_symm : ∀ j ∈ t.child.links, (s j).jointType = .rotationalJoint →
    rotaryInertia t s j *ᵥ (treeAxis t s j).2 = (rotaryInertia t s j)ᵀ *ᵥ (treeAxis t s j).2
  momentum : ∀ j ∈ t.child.links, (s j).jointType = .slideJoint →
    subtreeInertia t s j (treeAxis t s j) = 0
  moment : ∀ j ∈ t.child.links, (s j).jointType = .slideJoint → ∀ l ∈ (t.childPtr j).links,
    (s l).jointType = .rotationalJoint →
      spatialDot (treeAxis t s l) (subtreeInertia t s l (treeAxis t s j)) = 0

section Final

variable {t : LinkTree ι} {s : Store ι K}

omit [DecidableEq ι] [Field K] in
/-- If all joints can move, the joint array lists the links below the root. -/
theorem Actuated.lists (h : Actuated t s) (hmoving : ∀ i ∈ t.child.links, IsMoving (s i)) :
    ∃ link, Lists t (joint t s) link := by
  choose link hmem hid using h.used
  refine ⟨link, fun k ↦ h.joint_eq (hmem k) (hid k), fun k k' hkk' ↦ ?_, fun k ↦ ?_, fun i hi ↦ ?_⟩
  · have hval : (k : ℤ) = k' := by rw [← hid k, hkk', hid k']
    exact Fin.ext (by omega)
  · exact (h.of_joint (h.joint_eq (hmem k) (hid k))).1
  · have hi' : i ∈ t.links := List.mem_cons_of_mem _ hi
    have hnonneg : 0 ≤ (s i).jointId :=
      (h.jointId_nonneg_iff i hi').2 ⟨t.ne_root_of_mem_child hi, hmoving i hi⟩
    have hget := (jointIdToLinkArray_getElem? h.distinct (s i).jointId.toNat i).2
      ⟨hi', (Int.toNat_of_nonneg hnonneg).symm⟩
    obtain ⟨hlt, -⟩ := List.getElem?_eq_some_iff.1 hget
    refine ⟨⟨_, hlt⟩, ?_⟩
    have hjoint : (s (link ⟨_, hlt⟩)).jointId = (s i).jointId := by
      rw [hid]
      exact Int.toNat_of_nonneg hnonneg
    exact h.distinct _ (hmem _) i hi' (hjoint.symm ▸ hnonneg) hjoint

theorem Lists.jointRate_link {n : ℕ} {joint : Fin n → Option ι} {link : Fin n → ι}
    (h : Lists t joint link) (x : Dof (Fin n) → K) (k : Fin n) :
    jointRate joint x (link k) = x (.inr (.inr k)) := by
  have hiff : ∀ k', joint k' = some (link k) ↔ k' = k := fun k' ↦ by
    rw [h.eq, Option.some_inj, h.injective.eq_iff]
  simp only [jointRate, hiff, Finset.sum_ite_eq', Finset.mem_univ, if_true]

/-- Every motion of the root and the joints is that of a generalized velocity. -/
theorem Lists.exists_generalized {n : ℕ} {joint : Fin n → Option ι} {link : Fin n → ι}
    (h : Lists t joint link) (p : Vector3 K) (a : Spatial K) (r : ι → K) :
    ∃ x : Dof (Fin n) → K, rootVelocity p x = a ∧ ∀ S, ∀ i ∈ t.links,
      motionField t S a r i = motionField t S (rootVelocity p x) (jointRate joint x) i := by
  set x : Dof (Fin n) → K := Sum.elim (a.1 + a.2 ⨯₃ p) (Sum.elim a.2 (r ∘ link)) with hx
  have hroot : rootVelocity p x = a := Prod.ext (add_sub_cancel_right _ _) rfl
  refine ⟨x, hroot, fun S i hi ↦ ?_⟩
  rw [hroot]
  refine t.grow_congr (fun i hi ↦ ?_) i hi
  obtain ⟨k, rfl⟩ := h.exists_eq i hi
  rw [h.jointRate_link]
  rfl

theorem skewInertia_eq (i : ι) :
    skewInertia t s i = rotaryInertia t s i - (rotaryInertia t s i)ᵀ := by
  have hmap := t.map_subtreeSum (AddMonoidHom.id (Matrix33 K) -
    (Matrix.transposeAddEquiv (Fin 3) (Fin 3) K).toAddMonoidHom) (fun k ↦ worldInertia (s k)) i
  exact hmap.symm

theorem massAxis_rotational {i : ι} (h : (s i).jointType = .rotationalJoint) :
    massAxis t s i = treeAxis t s i := by
  rw [massAxis, treeAxis]
  cases t.parent i with
  | none => rfl
  | some p =>
    rw [Option.elim_some, Option.elim_some, motionAxis, jointTwist_rotational 1 h]
    simp [axis, calcInverseDynamicsJoint, h]

theorem massAxis_slide {i : ι} (h : (s i).jointType = .slideJoint) (ha : (s i).a = 0) :
    massAxis t s i = 0 ∧ (treeAxis t s i).2 = 0 := by
  rw [massAxis, treeAxis]
  cases t.parent i with
  | none => exact ⟨rfl, rfl⟩
  | some p =>
    rw [Option.elim_some, Option.elim_some, motionAxis, jointTwist_slide 1 h]
    simp [axis, calcInverseDynamicsJoint, h, ha]

theorem seenByPass_iff (haxes : ∀ i ∈ t.child.links, HasJointAxis (s i)) :
    SeenByPass t s ↔ SkewUnseen t s (massAxis t s) ∧
      DroppedUnseen t s (massAxis t s) (treeAxis t s) := by
  have hslide : ∀ i ∈ t.child.links, (s i).jointType = .slideJoint → massAxis t s i = 0 :=
    fun i hi htype ↦ by
      rcases haxes i hi with ⟨h, -⟩ | ⟨-, ha⟩
      · rw [h] at htype
        exact absurd htype (by decide)
      · exact (massAxis_slide htype ha).1
  have htype : ∀ i ∈ t.child.links,
      (s i).jointType = .rotationalJoint ∨ (s i).jointType = .slideJoint :=
    fun i hi ↦ (haxes i hi).imp And.left And.left
  constructor
  · intro h
    refine ⟨⟨?_, fun j hj ↦ ?_⟩, ⟨fun j hj ↦ ?_, fun j hj l hl ↦ ?_⟩⟩
    · rw [skewInertia_eq, h.symm.eq, sub_self]
    · rcases htype j hj with hr | hs
      · rw [massAxis_rotational hr, skewInertia_eq, sub_mulVec, h.axis_symm j hj hr, sub_self]
      · rw [hslide j hj hs, Prod.snd_zero, mulVec_zero]
    · rcases htype j hj with hr | hs
      · rw [massAxis_rotational hr, sub_self, map_zero]
      · rw [hslide j hj hs, sub_zero, h.momentum j hj hs]
    · have hl' : l ∈ t.child.links := (t.meets_childPtr j).sublist.subset hl
      rcases htype j hj with hr | hs
      · rw [massAxis_rotational hr, sub_self, map_zero, map_zero]
      · rcases htype l hl' with hlr | hls
        · rw [massAxis_rotational hlr, hslide j hj hs, sub_zero, h.moment j hj hs l hl hlr]
        · rw [hslide l hl' hls, map_zero, LinearMap.zero_apply]
  · rintro ⟨hskew, hdrop⟩
    refine ⟨?_, fun j hj hr ↦ ?_, fun j hj hs ↦ ?_, fun j hj hs l hl hlr ↦ ?_⟩
    · have hroot := hskew.root
      rw [skewInertia_eq, sub_eq_zero] at hroot
      exact hroot.symm
    · have hjoint := hskew.joint j hj
      rwa [skewInertia_eq, sub_mulVec, sub_eq_zero, massAxis_rotational hr] at hjoint
    · have hmom := hdrop.momentum j hj
      rwa [hslide j hj hs, sub_zero] at hmom
    · have hmom := hdrop.moment j hj l hl
      rwa [hslide j hj hs, sub_zero, massAxis_rotational hlr] at hmom

/-- **When the mass matrix is right.** For links with their joint axes in place, the matrix that
`calcMassMatrix` returns is the inertia of the body exactly when its slide joints and the
antisymmetric parts of its inertia tensors do not show. -/
theorem isMassMatrix_calcMassMatrix_iff [CharZero K] (hjoints : Actuated t s)
    (haxes : ∀ i ∈ t.child.links, HasJointAxis (s i))
    (unwritten : Matrix (Dof (Fin (numJoints t s))) (Dof (Fin (numJoints t s))) K)
    (unwrittenB : Matrix (Dof (Fin (numJoints t s))) (Fin 1) K) :
    IsMassMatrix t s (joint t s) (calcMassMatrix t (joint t s) unwritten unwrittenB s).2 ↔
      SeenByPass t s := by
  obtain ⟨link, hlink⟩ := hjoints.lists fun i hi ↦ (haxes i hi).imp And.left And.left
  have h2 : (2 : K) ≠ 0 := two_ne_zero
  have hdrops : DropsTranslations t (massAxis t s) (treeAxis t s) := fun i hi ↦
    (haxes i hi).imp (fun h ↦ massAxis_rotational h.1) fun h ↦ massAxis_slide h.1 h.2
  set p := (s t.root).p with hp
  set M := (calcMassMatrix t (joint t s) unwritten unwrittenB s).2 with hM
  have hform : ∀ x y, x ⬝ᵥ M *ᵥ y = _ := hlink.dotProduct_calcMassMatrix unwritten unwrittenB s
  have hmotor : ∀ x : Dof (Fin (numJoints t s)) → K,
      2 * ∑ k, (joint t s k).elim 0 (fun j ↦ (s j).Jm2 * x (.inr (.inr k)) ^ 2 / 2) =
        ∑ k, (s (link k)).Jm2 * x (.inr (.inr k)) * x (.inr (.inr k)) := fun x ↦ by
    rw [Finset.mul_sum]
    refine Finset.sum_congr rfl fun k _ ↦ ?_
    rw [hlink.eq, Option.elim_some, mul_div_cancel₀ _ h2]
    ring
  -- the energy equation of one generalized velocity
  have henergy : ∀ (x : Dof (Fin (numJoints t s)) → K) (v w : ι → Vector3 K),
      IsMotion t s (jointRate (joint t s) x) v w → v t.root = (fun k ↦ x (.inl k)) →
      w t.root = (fun k ↦ x (.inr (.inl k))) →
      ((x ⬝ᵥ M *ᵥ x) / 2 = kineticEnergy t s v w +
          ∑ k, (joint t s k).elim 0 (fun j ↦ (s j).Jm2 * x (.inr (.inr k)) ^ 2 / 2) ↔
        inertiaForm t s (motionField t (massAxis t s) (rootVelocity p x) (jointRate (joint t s) x))
            (motionField t (massAxis t s) (rootVelocity p x) (jointRate (joint t s) x)) =
          inertiaForm t s
            (motionField t (treeAxis t s) (rootVelocity p x) (jointRate (joint t s) x))
            (motionField t (treeAxis t s) (rootVelocity p x) (jointRate (joint t s) x))) :=
    fun x v w hmotion hv hw ↦ by
      have hkin := hmotion.two_mul_kineticEnergy h2
      rw [hv, hw] at hkin
      rw [div_eq_iff h2, mul_comm _ (2 : K), mul_add, hkin, hmotor, hform, add_left_inj]
      rfl
  rw [seenByPass_iff haxes, ← inertiaForm_comm_iff, ← inertiaForm_eq_iff hdrops h2]
  constructor
  · intro h
    refine ⟨fun a r a' r' ↦ ?_, fun a r ↦ ?_⟩
    · obtain ⟨x, -, hx⟩ := hlink.exists_generalized p a r
      obtain ⟨y, -, hy⟩ := hlink.exists_generalized p a' r'
      have hxy : x ⬝ᵥ M *ᵥ y = y ⬝ᵥ M *ᵥ x := by
        rw [dotProduct_comm, dotProduct_mulVec, ← mulVec_transpose, h.symm.eq]
      have hmotors : ∑ k, (s (link k)).Jm2 * x (.inr (.inr k)) * y (.inr (.inr k)) =
          ∑ k, (s (link k)).Jm2 * y (.inr (.inr k)) * x (.inr (.inr k)) :=
        Finset.sum_congr rfl fun k _ ↦ mul_right_comm _ _ _
      rw [hform, hform, hmotors, add_left_inj] at hxy
      rw [inertiaForm_congr (hx _) (hy _), inertiaForm_congr (hy _) (hx _)]
      exact hxy
    · obtain ⟨x, -, hx⟩ := hlink.exists_generalized p a r
      obtain ⟨v, w, hmotion, hv, hw⟩ := exists_isMotion t s (jointRate (joint t s) x)
        (fun k ↦ x (.inl k)) fun k ↦ x (.inr (.inl k))
      rw [inertiaForm_congr (hx _) (hx _), inertiaForm_congr (hx _) (hx _)]
      exact (henergy x v w hmotion hv hw).1 (h.energy x v w hmotion hv hw)
  · rintro ⟨hcomm, hequal⟩
    refine ⟨Matrix.ext fun d e ↦ ?_, fun x v w hmotion hv hw ↦
      (henergy x v w hmotion hv hw).2 (hequal _ _)⟩
    have hde : (if e = d then motorInertia s (place link e) else 0) =
        if d = e then motorInertia s (place link d) else 0 := by
      rcases eq_or_ne d e with rfl | hne
      · rfl
      · rw [if_neg hne, if_neg hne.symm]
    have hunit := hcomm (unitRoot p (place link e)) (unitRate (place link e))
      (unitRoot p (place link d)) (unitRate (place link d))
    show M e d = M d e
    rw [hM, hlink.calcMassMatrix_eq, hlink.calcMassMatrix_eq, hde]
    exact congrArg (· + _) hunit

end Final

/-- A free base with a drawer: a slide joint along the first axis. -/
def drawer (i : Fin 2) : Link ℚ :=
  { Link.blank with
    jointId := (i : ℤ) - 1
    jointType := if i = 0 then .freeJoint else .slideJoint
    d := if i = 0 then 0 else ![1, 0, 0]
    m := 1 }

theorem isMassMatrix_calcMassMatrix_iff_drawer :
    IsMassMatrix oneJointTree drawer (joint oneJointTree drawer)
        (calcMassMatrix oneJointTree (joint oneJointTree drawer) 0 0 drawer).2 ↔
      SeenByPass oneJointTree drawer :=
  isMassMatrix_calcMassMatrix_iff ⟨⟨by decide +kernel, by decide +kernel⟩, by decide +kernel⟩
    (by decide +kernel) 0 0

/-- The matrix gives the moving drawer no energy. -/
theorem not_isMassMatrix_drawer :
    Actuated oneJointTree drawer ∧ (∀ i ∈ oneJointTree.child.links, HasJointAxis (drawer i)) ∧
      ¬IsMassMatrix oneJointTree drawer (joint oneJointTree drawer)
        (calcMassMatrix oneJointTree (joint oneJointTree drawer) 0 0 drawer).2 := by
  refine ⟨⟨⟨by decide +kernel, by decide +kernel⟩, by decide +kernel⟩, by decide +kernel,
    fun h ↦ ?_⟩
  set x : Dof (Fin (numJoints oneJointTree drawer)) → ℚ := Sum.elim 0 (Sum.elim 0 1) with hx
  have hmotion : IsMotion oneJointTree drawer (jointRate (joint oneJointTree drawer) x)
      (fun i ↦ if i = 0 then 0 else ![1, 0, 0]) 0 := ⟨by decide +kernel, by decide +kernel⟩
  have henergy := h.energy x _ _ hmotion (by decide +kernel) (by decide +kernel)
  revert henergy
  decide +kernel

end OpenHRP
