import OpenHRP.Dynamics.ForwardDynamicsABM
import OpenHRP.Foundations.ArticulatedBody
import Mathlib.LinearAlgebra.Matrix.NonsingularInverse

/-!
# Articulated-body forward dynamics solves the equations of motion

After the three phases, the accelerations left in the links satisfy the Newton-Euler equations: the
force a joint transmits, projected on its axis, is the joint torque less what the rotor takes, and
no force acts on a free root (`satisfiesNewtonEuler`).

The proof instantiates the coordinate-free recursion (`ArticulatedBody`). Phase 2 leaves in each
link an inertia and a bias force that are those of phase 1 plus what the children pass on; what a
child passes on is the elimination of its joint (`toLin_passedInertia`, `passedForce_eq`); phase 3
gives each link the acceleration the elimination assumed.

Self-adjointness of the articulated inertia is needed throughout: phase 2 forms `Ia*s` and never
`s^T*Ia`. It comes from the symmetry of the links' inertia tensors `I`. Nothing in the program
checks that symmetry, and without it the equations fail (`not_satisfiesNewtonEuler_twoLinkArm`).
-/

open Matrix

namespace OpenHRP

namespace ForwardDynamicsABM

variable {ι K : Type*} [DecidableEq ι] [Field K]

/-! ### The equations of motion -/

/-- The acceleration of a link. -/
def accel (link : Link K) : Spatial K :=
  (link.dvo, link.dw)

/-- The joint axis of a link. -/
def axis (link : Link K) : Spatial K :=
  (link.sv, link.sw)

/-- The cross velocity term of a link. -/
def crossVelocity (link : Link K) : Spatial K :=
  (link.cv, link.cw)

/-- The force needed to move the link alone: `I*a + bias - fext`, with the spatial inertia and the
bias force of the state `s₁` and the acceleration of the state `s₃`. -/
def ownForce (s₁ s₃ : Store ι K) (i : ι) : Spatial K :=
  (inertia (s₁ i)).toLin (accel (s₃ i)) + biasForce (s₁ i) - externalForce (s₁ i)

/-- The force transmitted to a link by its joint: what moves the link and everything below it. -/
def linkForce (t : LinkTree ι) (s₁ s₃ : Store ι K) : ι → Spatial K :=
  t.subtreeSum (ownForce s₁ s₃)

/-- The force on a link is its own and the sum of the forces on its children. -/
theorem linkForce_eq (t : LinkTree ι) (s₁ s₃ : Store ι K) (i : ι) :
    linkForce t s₁ s₃ i = (inertia (s₁ i)).toLin (accel (s₃ i)) + biasForce (s₁ i) -
      externalForce (s₁ i) + ((t.children i).map (linkForce t s₁ s₃)).sum :=
  t.subtreeSum_eq _ i

/-- The Newton-Euler equations, between the state `s₁` after phase 1 and the accelerations of the
state `s₃`. -/
structure SatisfiesNewtonEuler (t : LinkTree ι) (s₁ s₃ : Store ι K) : Prop where
  /-- The torque at every moving joint. -/
  joint : ∀ i ∈ t.links, i ≠ t.root → (s₁ i).jointType ≠ .fixedJoint →
    (s₁ i).sv ⬝ᵥ (linkForce t s₁ s₃ i).1 + (s₁ i).sw ⬝ᵥ (linkForce t s₁ s₃ i).2 =
      (s₁ i).u - (s₁ i).Jm2 * (s₃ i).ddq
  /-- No force acts on a free root. -/
  root : (s₁ t.root).jointType = .freeJoint → linkForce t s₁ s₃ t.root = 0

/-! ### Phase 1 -/

section Phase1

variable [CMath K]

theorem calcABMPhase1Link_jointType (g : Vector3 K) (parent : Option (Link K)) (link : Link K) :
    (calcABMPhase1Link g parent link).jointType = link.jointType := by
  cases parent with
  | none => rfl
  | some parent =>
    show (calcABMPhase1Joint parent link).jointType = link.jointType
    rw [calcABMPhase1Joint]
    cases link.jointType <;> rfl

theorem calcABMPhase1Link_inertiaTensor (g : Vector3 K) (parent : Option (Link K))
    (link : Link K) : (calcABMPhase1Link g parent link).I = link.I := by
  cases parent with
  | none => rfl
  | some parent =>
    show (calcABMPhase1Joint parent link).I = link.I
    rw [calcABMPhase1Joint]
    cases link.jointType <;> rfl

/-- The spatial inertia of phase 1 is that of the centre of mass, moved to the origin. -/
theorem inertia_calcABMPhase1Link (g : Vector3 K) (parent : Option (Link K)) (link : Link K) :
    let link' := calcABMPhase1Link g parent link
    inertia link' = ⟨!![link'.m, 0, 0; 0, link'.m, 0; 0, 0, link'.m], link'.m • hat link'.wc,
      link'.m • (hat link'.wc * (hat link'.wc)ᵀ) + link'.R * link'.I * link'.Rᵀ⟩ :=
  rfl

theorem crossVelocity_calcABMPhase1Link (g : Vector3 K) (parent link : Link K)
    (hfixed : link.jointType = .fixedJoint) :
    crossVelocity (calcABMPhase1Link g (some parent) link) = 0 := by
  show crossVelocity (calcABMPhase1Joint parent link) = 0
  rw [calcABMPhase1Joint, hfixed]
  rfl

theorem calcABMPhase1_jointType (t : LinkTree ι) (g : Vector3 K) (s : Store ι K) (i : ι) :
    (calcABMPhase1 t g s i).jointType = (s i).jointType :=
  sweep_field Link.jointType (fun _ _ ↦ calcABMPhase1Link_jointType _ _ _) _ _ i

theorem calcABMPhase1_inertiaTensor (t : LinkTree ι) (g : Vector3 K) (s : Store ι K) (i : ι) :
    (calcABMPhase1 t g s i).I = (s i).I :=
  sweep_field Link.I (fun _ _ ↦ calcABMPhase1Link_inertiaTensor _ _ _) _ _ i

/-- With a symmetric inertia tensor, the spatial inertia of phase 1 is self-adjoint. -/
theorem selfAdjoint_calcABMPhase1 (t : LinkTree ι) (g : Vector3 K) (s : Store ι K) {i : ι}
    (hi : i ∈ t.links) (hI : (s i).I.IsSymm) :
    ArticulatedBody.SelfAdjoint spatialDot (inertia (calcABMPhase1 t g s i)).toLin := by
  have hI' : (calcABMPhase1 t g s i).I.IsSymm := by rwa [calcABMPhase1_inertiaTensor]
  have heq : calcABMPhase1 t g s i =
      calcABMPhase1Link g ((t.parent i).map (calcABMPhase1 t g s)) (s i) :=
    t.forwardLoop_eq _ s hi
  have hinertia := inertia_calcABMPhase1Link g ((t.parent i).map (calcABMPhase1 t g s)) (s i)
  rw [← heq] at hinertia
  rw [hinertia]
  refine BlockInertia.selfAdjoint ?_ ?_
  · ext j k
    fin_cases j <;> fin_cases k <;> rfl
  · exact ((isSymm_hat_mul_transpose _).smul _).add (isSymm_conj hI' _)

/-- A fixed joint leaves no cross velocity term. -/
theorem crossVelocity_calcABMPhase1 (t : LinkTree ι) (g : Vector3 K) (s : Store ι K) {p i : ι}
    (hp : t.parent i = some p) (hfixed : (s i).jointType = .fixedJoint) :
    crossVelocity (calcABMPhase1 t g s i) = 0 := by
  have heq : calcABMPhase1 t g s i =
      calcABMPhase1Link g ((t.parent i).map (calcABMPhase1 t g s)) (s i) :=
    t.forwardLoop_eq _ s (t.parent_mem hp).2
  rw [heq, hp]
  exact crossVelocity_calcABMPhase1Link g _ (s i) hfixed

end Phase1

/-! ### Phase 2 -/

/-- The joint of a link, as the coordinate-free recursion sees it. -/
def joint (link : Link K) : ArticulatedBody.Joint K (Spatial K) :=
  ⟨axis link, crossVelocity link, link.Jm2, link.u⟩

/-- The inertia of a link as a map. -/
abbrev inertiaMap (link : Link K) : Spatial K →ₗ[K] Spatial K :=
  (inertia link).toLin

/-- What phase 2 has established at a moving joint. -/
structure JointReady (link : Link K) : Prop where
  hh : (link.hhv, link.hhw) = inertiaMap link (axis link)
  dd : link.dd = ArticulatedBody.pivot spatialDot (inertiaMap link) (joint link)
  uu : link.uu = ArticulatedBody.drive spatialDot (inertiaMap link) (biasForce link) (joint link)

/-- The force a child passes to its parent. -/
def passedForce (child : Link K) : Spatial K :=
  passedBias child + biasForce child + passedDrive child

theorem calcABMPhase2Link_frame (isRoot : Bool) (children : List (Link K)) (link : Link K) :
    let link' := calcABMPhase2Link isRoot children link
    link'.jointType = link.jointType ∧ joint link' = joint link := by
  rw [calcABMPhase2Link_eq]
  dsimp only
  split_ifs <;> exact ⟨rfl, rfl⟩

theorem inertia_calcABMPhase2Link (isRoot : Bool) (children : List (Link K)) (link : Link K) :
    inertia (calcABMPhase2Link isRoot children link) =
      inertia link + (children.map passedInertia).sum := by
  rw [calcABMPhase2Link_eq]
  dsimp only
  split_ifs <;> rfl

theorem biasForce_calcABMPhase2Link (isRoot : Bool) (children : List (Link K)) (link : Link K) :
    biasForce (calcABMPhase2Link isRoot children link) =
      biasForce link - externalForce link + (children.map passedForce).sum := by
  rw [calcABMPhase2Link_eq]
  dsimp only
  split_ifs <;> rfl

variable {link : Link K}

theorem jointReady_calcABMPhase2Link {isRoot : Bool}
    (hjoint : ¬isRoot ∧ link.jointType ≠ .fixedJoint) (children : List (Link K)) :
    JointReady (calcABMPhase2Link isRoot children link) := by
  rw [calcABMPhase2Link_eq]
  dsimp only
  rw [if_pos hjoint]
  refine ⟨rfl, rfl, ?_⟩
  refine congrArg (link.u - ·) ?_
  exact add_assoc _ _ _

/-- What a ready joint passes on is the elimination of the joint. -/
theorem toLin_passedInertia (hlink : JointReady link) (hfixed : link.jointType ≠ .fixedJoint) :
    (passedInertia link).toLin =
      ArticulatedBody.passedInertia spatialDot (inertiaMap link) (joint link) := by
  refine LinearMap.ext fun x ↦ ?_
  have hscale : spatialDot (inertiaMap link (axis link)) x =
      link.hhv ⬝ᵥ x.1 + link.hhw ⬝ᵥ x.2 := by
    rw [← hlink.hh, spatialDot_apply]
  have htranspose : (vecMulVec link.hhw (link.dd⁻¹ • link.hhv))ᵀ =
      vecMulVec link.hhv (link.dd⁻¹ • link.hhw) := by
    rw [transpose_vecMulVec, smul_vecMulVec, vecMulVec_smul]
  have hpassed : passedInertia link =
      ⟨link.Ivv - vecMulVec link.hhv (link.dd⁻¹ • link.hhv),
        link.Iwv - vecMulVec link.hhw (link.dd⁻¹ • link.hhv),
        link.Iww - vecMulVec link.hhw (link.dd⁻¹ • link.hhw)⟩ := if_neg hfixed
  have hjoint : inertiaMap link (joint link).axis = (link.hhv, link.hhw) := hlink.hh.symm
  rw [ArticulatedBody.passedInertia, ← hlink.dd, hpassed, LinearMap.sub_apply,
    LinearMap.smul_apply, LinearMap.smulRight_apply, hjoint]
  refine Prod.ext ?_ ?_
  · show (link.Ivv - vecMulVec link.hhv (link.dd⁻¹ • link.hhv)) *ᵥ x.1 +
        (link.Iwv - vecMulVec link.hhw (link.dd⁻¹ • link.hhv))ᵀ *ᵥ x.2 =
      link.Ivv *ᵥ x.1 + link.Iwvᵀ *ᵥ x.2 -
        link.dd⁻¹ • (link.hhv ⬝ᵥ x.1 + link.hhw ⬝ᵥ x.2) • link.hhv
    rw [transpose_sub, htranspose, sub_mulVec, sub_mulVec, vecMulVec_mulVec, vecMulVec_mulVec,
      smul_dotProduct, smul_dotProduct, smul_eq_mul, smul_eq_mul]
    ext k
    simp
    ring
  · show (link.Iwv - vecMulVec link.hhw (link.dd⁻¹ • link.hhv)) *ᵥ x.1 +
        (link.Iww - vecMulVec link.hhw (link.dd⁻¹ • link.hhw)) *ᵥ x.2 =
      link.Iwv *ᵥ x.1 + link.Iww *ᵥ x.2 -
        link.dd⁻¹ • (link.hhv ⬝ᵥ x.1 + link.hhw ⬝ᵥ x.2) • link.hhw
    rw [sub_mulVec, sub_mulVec, vecMulVec_mulVec, vecMulVec_mulVec, smul_dotProduct,
      smul_dotProduct, smul_eq_mul, smul_eq_mul]
    ext k
    simp
    ring

theorem passedForce_eq (hlink : JointReady link) (hfixed : link.jointType ≠ .fixedJoint) :
    passedForce link =
      ArticulatedBody.passedForce spatialDot (inertiaMap link) (biasForce link) (joint link) := by
  have hjoint : inertiaMap link (joint link).axis = (link.hhv, link.hhw) := hlink.hh.symm
  rw [ArticulatedBody.passedForce, ← hlink.dd, ← hlink.uu, hjoint, passedForce, passedDrive,
    if_pos hfixed]
  rfl

/-! ### Phase 3 -/

/-- The acceleration of a link behind a ready joint is the one the elimination assumed. -/
theorem accel_calcABMPhase3Joint (parent : Link K) (hlink : JointReady link)
    (hfixed : link.jointType ≠ .fixedJoint) :
    let link' := calcABMPhase3Joint parent link
    link'.ddq = ArticulatedBody.jointAccel spatialDot (inertiaMap link) (biasForce link)
        (joint link) (accel parent) ∧
      accel link' = accel parent + crossVelocity link + link'.ddq • axis link := by
  have hscale : spatialDot (inertiaMap link (joint link).axis) (accel parent) =
      link.hhv ⬝ᵥ parent.dvo + link.hhw ⬝ᵥ parent.dw := by
    rw [show inertiaMap link (joint link).axis = (link.hhv, link.hhw) from hlink.hh.symm]
    rfl
  rw [ArticulatedBody.jointAccel, hscale, ← hlink.dd, ← hlink.uu, calcABMPhase3Joint,
    if_pos hfixed]
  exact ⟨rfl, rfl⟩

theorem accel_calcABMPhase3Joint_fixed {parent link : Link K}
    (hfixed : link.jointType = .fixedJoint) :
    accel (calcABMPhase3Joint parent link) = accel parent := by
  rw [calcABMPhase3Joint, if_neg (not_not.2 hfixed)]
  rfl

/-- A free root accelerates so that its articulated inertia balances its bias force. -/
theorem accel_calcABMPhase3Root {solve : Solver K} {root : Link K}
    (hsolve : articulatedInertia root *ᵥ
      solve (articulatedInertia root) (-Sum.elim root.pf root.ptau) =
        -Sum.elim root.pf root.ptau)
    (hfree : root.jointType = .freeJoint) :
    inertiaMap root (accel (calcABMPhase3Root solve root)) + biasForce root = 0 := by
  set pm := solve (articulatedInertia root) (-Sum.elim root.pf root.ptau) with hpm
  have haccel : accel (calcABMPhase3Root solve root) = (pm ∘ Sum.inl, pm ∘ Sum.inr) := by
    rw [calcABMPhase3Root, if_pos hfree]
    rfl
  have hblocks : Sum.elim (root.Ivv *ᵥ (pm ∘ Sum.inl) + root.Iwvᵀ *ᵥ (pm ∘ Sum.inr))
      (root.Iwv *ᵥ (pm ∘ Sum.inl) + root.Iww *ᵥ (pm ∘ Sum.inr)) =
        -Sum.elim root.pf root.ptau := by
    rw [← hsolve, articulatedInertia, fromBlocks_mulVec]
  rw [haccel]
  refine Prod.ext ?_ ?_
  · funext k
    have hk := congrFun hblocks (.inl k)
    exact add_eq_zero_iff_eq_neg.2 hk
  · funext k
    have hk := congrFun hblocks (.inr k)
    exact add_eq_zero_iff_eq_neg.2 hk

/-! ### The phases over the whole tree -/

theorem calcABMPhase2_frame (t : LinkTree ι) (s : Store ι K) (i : ι) :
    (calcABMPhase2 t s i).jointType = (s i).jointType ∧
      joint (calcABMPhase2 t s i) = joint (s i) :=
  ⟨sweep_field Link.jointType (fun _ _ ↦ (calcABMPhase2Link_frame _ _ _).1) _ _ i,
    sweep_field joint (fun _ _ ↦ (calcABMPhase2Link_frame _ _ _).2) _ _ i⟩

theorem calcABMPhase2_eq (t : LinkTree ι) (s : Store ι K) {i : ι} (hi : i ∈ t.links) :
    calcABMPhase2 t s i = calcABMPhase2Link (decide (i = t.root))
      ((t.children i).map (calcABMPhase2 t s)) (s i) :=
  t.reverseLoop_eq _ s hi

/-- Phase 2 leaves every moving joint ready. -/
theorem jointReady_calcABMPhase2 (t : LinkTree ι) (s : Store ι K) {i : ι} (hi : i ∈ t.links)
    (hr : i ≠ t.root) (hfixed : (s i).jointType ≠ .fixedJoint) :
    JointReady (calcABMPhase2 t s i) := by
  rw [calcABMPhase2_eq t s hi]
  exact jointReady_calcABMPhase2Link ⟨by simp [hr], hfixed⟩ _

theorem inertiaMap_calcABMPhase2 (t : LinkTree ι) (s : Store ι K) {i : ι} (hi : i ∈ t.links) :
    inertiaMap (calcABMPhase2 t s i) = inertiaMap (s i) +
      ((t.children i).map fun c ↦ (passedInertia (calcABMPhase2 t s c)).toLin).sum := by
  have hinertia : inertia (calcABMPhase2 t s i) = inertia (s i) +
      (((t.children i).map (calcABMPhase2 t s)).map passedInertia).sum := by
    rw [calcABMPhase2_eq t s hi, inertia_calcABMPhase2Link]
  rw [inertiaMap, hinertia, BlockInertia.toLin_add, BlockInertia.toLin_sum, List.map_map,
    List.map_map]
  rfl

theorem biasForce_calcABMPhase2 (t : LinkTree ι) (s : Store ι K) {i : ι} (hi : i ∈ t.links) :
    biasForce (calcABMPhase2 t s i) = biasForce (s i) - externalForce (s i) +
      ((t.children i).map fun c ↦ passedForce (calcABMPhase2 t s c)).sum := by
  rw [calcABMPhase2_eq t s hi, biasForce_calcABMPhase2Link, List.map_map]
  rfl

/-- Phase 2 keeps the inertias self-adjoint. -/
theorem selfAdjoint_calcABMPhase2 (t : LinkTree ι) (s : Store ι K)
    (hs : ∀ i ∈ t.links, ArticulatedBody.SelfAdjoint spatialDot (inertiaMap (s i))) :
    ∀ i ∈ t.links,
      ArticulatedBody.SelfAdjoint spatialDot (inertiaMap (calcABMPhase2 t s i)) := by
  refine t.children_induction fun i hi ih ↦ ?_
  rw [inertiaMap_calcABMPhase2 t s hi]
  refine (hs i hi).add (ArticulatedBody.SelfAdjoint.list_sum fun A hA ↦ ?_)
  obtain ⟨c, hc, rfl⟩ := List.mem_map.1 hA
  have hpc := t.mem_children.1 hc
  by_cases hfixed : (s c).jointType = .fixedJoint
  · rw [passedInertia, if_pos ((calcABMPhase2_frame t s c).1.trans hfixed)]
    exact ih c hc
  · have hfixed₂ : (calcABMPhase2 t s c).jointType ≠ .fixedJoint := fun h ↦
      hfixed ((calcABMPhase2_frame t s c).1.symm.trans h)
    rw [toLin_passedInertia (jointReady_calcABMPhase2 t s (t.parent_mem hpc).2
      (t.ne_root_of_parent hpc) hfixed) hfixed₂]
    exact ArticulatedBody.selfAdjoint_passedInertia spatialDot_isSymm (ih c hc) _

theorem calcABMPhase3_root (t : LinkTree ι) (solve : Solver K) (s : Store ι K) :
    calcABMPhase3 t solve s t.root = calcABMPhase3Root solve (s t.root) := by
  have h := t.forwardLoop_eq (fun _ parent link ↦
    parent.elim (calcABMPhase3Root solve link) fun parent ↦ calcABMPhase3Joint parent link)
    s t.root_mem
  rw [t.parent_root] at h
  exact h

theorem calcABMPhase3_joint (t : LinkTree ι) (solve : Solver K) (s : Store ι K) {p c : ι}
    (hpc : t.parent c = some p) :
    calcABMPhase3 t solve s c = calcABMPhase3Joint (calcABMPhase3 t solve s p) (s c) := by
  have h := t.forwardLoop_eq (fun _ parent link ↦
    parent.elim (calcABMPhase3Root solve link) fun parent ↦ calcABMPhase3Joint parent link)
    s (t.parent_mem hpc).2
  rw [hpc] at h
  exact h

/-! ### The equations hold -/

section Passes

variable (t : LinkTree ι) (solve : Solver K) (s : Store ι K)

/-- The force a child needs is the one it passed to its parent. -/
theorem articulatedForce_child
    (hcross : ∀ p c, t.parent c = some p → (s c).jointType = .fixedJoint →
      crossVelocity (s c) = 0) {p c : ι} (hpc : t.parent c = some p) :
    let s₂ := calcABMPhase2 t s
    let s₃ := calcABMPhase3 t solve s₂
    inertiaMap (s₂ c) (accel (s₃ c)) + biasForce (s₂ c) =
      (passedInertia (s₂ c)).toLin (accel (s₃ p)) + passedForce (s₂ c) := by
  intro s₂ s₃
  have htype : (s₂ c).jointType = (s c).jointType := (calcABMPhase2_frame t s c).1
  have haccel₃ : s₃ c = calcABMPhase3Joint (s₃ p) (s₂ c) := calcABMPhase3_joint t solve s₂ hpc
  rw [haccel₃]
  by_cases hfixed : (s c).jointType = .fixedJoint
  · have hfixed₂ : (s₂ c).jointType = .fixedJoint := htype.trans hfixed
    have hzero : ((s₂ c).cv, (s₂ c).cw) = 0 :=
      (congrArg ArticulatedBody.Joint.bias (calcABMPhase2_frame t s c).2).trans
        (hcross p c hpc hfixed)
    rw [accel_calcABMPhase3Joint_fixed hfixed₂, passedForce, passedDrive,
      if_neg (not_not.2 hfixed₂), passedInertia, if_pos hfixed₂, passedBias, hzero, map_zero,
      zero_add, add_zero]
  · have hfixed₂ : (s₂ c).jointType ≠ .fixedJoint := fun h ↦ hfixed (htype.symm.trans h)
    have hready : JointReady (s₂ c) :=
      jointReady_calcABMPhase2 t s (t.parent_mem hpc).2 (t.ne_root_of_parent hpc) hfixed
    obtain ⟨hddq, haccel⟩ := accel_calcABMPhase3Joint (s₃ p) hready hfixed₂
    rw [haccel, hddq, toLin_passedInertia hready hfixed₂, passedForce_eq hready hfixed₂]
    exact ArticulatedBody.joint_force _ _ (joint (s₂ c)) _

/-- The force transmitted to a link is its articulated inertia applied to its acceleration, plus
its articulated bias force. -/
theorem linkForce_eq_articulated
    (hcross : ∀ p c, t.parent c = some p → (s c).jointType = .fixedJoint →
      crossVelocity (s c) = 0) :
    let s₂ := calcABMPhase2 t s
    let s₃ := calcABMPhase3 t solve s₂
    ∀ i ∈ t.links, linkForce t s s₃ i =
      inertiaMap (s₂ i) (accel (s₃ i)) + biasForce (s₂ i) := by
  intro s₂ s₃ i hi
  refine ArticulatedBody.force_eq (List.nodup_reverse.2 t.links_nodup)
    t.readsEarlier_children (fun i _ c hc ↦ ?_)
    (fun i hi ↦ inertiaMap_calcABMPhase2 t s (List.mem_reverse.1 hi))
    (fun i hi ↦ biasForce_calcABMPhase2 t s (List.mem_reverse.1 hi)) (fun i _ ↦ ?_)
    (fun i _ c hc ↦ articulatedForce_child t solve s hcross (t.mem_children.1 hc)) i
    (List.mem_reverse.2 hi)
  · exact List.mem_reverse.2 (t.parent_mem (t.mem_children.1 hc)).2
  · rw [linkForce_eq, ← add_sub_assoc]

end Passes

section Main

variable [CMath K]

/-- The force transmitted to a link, after the three phases. -/
theorem linkForce_calcABMPhases (t : LinkTree ι) (g : Vector3 K) (solve : Solver K)
    (s : Store ι K) :
    let s₁ := calcABMPhase1 t g s
    let s₂ := calcABMPhase2 t s₁
    let s₃ := calcABMPhase3 t solve s₂
    ∀ i ∈ t.links, linkForce t s₁ s₃ i = inertiaMap (s₂ i) (accel (s₃ i)) + biasForce (s₂ i) :=
  linkForce_eq_articulated t solve _ fun _ c hpc hfixed ↦
    crossVelocity_calcABMPhase1 t g s hpc ((calcABMPhase1_jointType t g s c).symm.trans hfixed)

/-- The torque at a moving joint, after the three phases. -/
theorem jointTorque_calcABMPhases (t : LinkTree ι) (g : Vector3 K) (solve : Solver K)
    (s : Store ι K) (hI : ∀ i ∈ t.links, (s i).I.IsSymm)
    (hdd : ∀ i ∈ t.links, i ≠ t.root → (s i).jointType ≠ .fixedJoint →
      (calcABMPhase2 t (calcABMPhase1 t g s) i).dd ≠ 0) :
    let s₁ := calcABMPhase1 t g s
    let s₃ := calcABMPhase3 t solve (calcABMPhase2 t s₁)
    ∀ i ∈ t.links, i ≠ t.root → (s i).jointType ≠ .fixedJoint →
      spatialDot (axis (s₁ i)) (linkForce t s₁ s₃ i) = (s₁ i).u - (s₁ i).Jm2 * (s₃ i).ddq := by
  intro s₁ s₃ i hi hr hfixed
  set s₂ := calcABMPhase2 t s₁ with hs₂
  have htype₂ : (s₂ i).jointType = (s i).jointType :=
    (calcABMPhase2_frame t s₁ i).1.trans (calcABMPhase1_jointType t g s i)
  have hself : ∀ i ∈ t.links, ArticulatedBody.SelfAdjoint spatialDot (inertiaMap (s₂ i)) :=
    selfAdjoint_calcABMPhase2 t s₁ fun i hi ↦ selfAdjoint_calcABMPhase1 t g s hi (hI i hi)
  obtain ⟨p, hp⟩ := t.exists_parent hi hr
  have hready : JointReady (s₂ i) := jointReady_calcABMPhase2 t s₁ hi hr
    ((calcABMPhase1_jointType t g s i).trans_ne hfixed)
  have hjoint : joint (s₂ i) = joint (s₁ i) := (calcABMPhase2_frame t s₁ i).2
  have hpivot : ArticulatedBody.pivot spatialDot (inertiaMap (s₂ i)) (joint (s₂ i)) ≠ 0 :=
    hready.dd ▸ hdd i hi hr hfixed
  obtain ⟨hddq, haccel⟩ := accel_calcABMPhase3Joint (s₃ p) hready (htype₂.trans_ne hfixed)
  have haccel₃ : s₃ i = calcABMPhase3Joint (s₃ p) (s₂ i) := calcABMPhase3_joint t solve s₂ hp
  rw [← haccel₃] at hddq haccel
  have htorque := ArticulatedBody.joint_torque (hself i hi) (biasForce (s₂ i))
    (joint (s₂ i)) (accel (s₃ p)) hpivot
  rw [← hddq] at htorque
  calc spatialDot (joint (s₁ i)).axis (linkForce t s₁ s₃ i)
      = spatialDot (joint (s₂ i)).axis (inertiaMap (s₂ i)
          (accel (s₃ p) + (joint (s₂ i)).bias + (s₃ i).ddq • (joint (s₂ i)).axis) +
            biasForce (s₂ i)) := by
        rw [linkForce_calcABMPhases t g solve s i hi, haccel, ← hjoint]
        rfl
    _ = (joint (s₂ i)).torque - (joint (s₂ i)).inertia * (s₃ i).ddq := htorque
    _ = (s₁ i).u - (s₁ i).Jm2 * (s₃ i).ddq := by
        rw [hjoint]
        rfl

/-- No force acts on a free root, after the three phases. -/
theorem rootForce_calcABMPhases (t : LinkTree ι) (g : Vector3 K) (solve : Solver K)
    (s : Store ι K) (hfree : (s t.root).jointType = .freeJoint)
    (hroot : IsUnit (articulatedInertia (calcABMPhase2 t (calcABMPhase1 t g s) t.root)).det)
    (hsolve : ∀ A b, IsUnit A.det → A *ᵥ solve A b = b) :
    linkForce t (calcABMPhase1 t g s)
      (calcABMPhase3 t solve (calcABMPhase2 t (calcABMPhase1 t g s))) t.root = 0 := by
  rw [linkForce_calcABMPhases t g solve s _ t.root_mem, calcABMPhase3_root]
  exact accel_calcABMPhase3Root (hsolve _ _ hroot) ((calcABMPhase2_frame t _ _).1.trans
    ((calcABMPhase1_jointType t g s _).trans hfree))

/-- **Articulated-body forward dynamics is sound.** On every tree of links with symmetric inertia
tensors, the accelerations after the three phases satisfy the Newton-Euler equations, provided
every moving joint has a nonzero `dd` and, for a free root, its articulated inertia is invertible
and the linear solver solves invertible systems. -/
theorem satisfiesNewtonEuler (t : LinkTree ι) (g : Vector3 K) (solve : Solver K) (s : Store ι K)
    (hI : ∀ i ∈ t.links, (s i).I.IsSymm)
    (hdd : ∀ i ∈ t.links, i ≠ t.root → (s i).jointType ≠ .fixedJoint →
      (calcABMPhase2 t (calcABMPhase1 t g s) i).dd ≠ 0)
    (hroot : (s t.root).jointType = .freeJoint →
      IsUnit (articulatedInertia (calcABMPhase2 t (calcABMPhase1 t g s) t.root)).det)
    (hsolve : ∀ A b, IsUnit A.det → A *ᵥ solve A b = b) :
    SatisfiesNewtonEuler t (calcABMPhase1 t g s)
      (calcABMPhase3 t solve (calcABMPhase2 t (calcABMPhase1 t g s))) := by
  have htype : ∀ i, (calcABMPhase1 t g s i).jointType = (s i).jointType :=
    calcABMPhase1_jointType t g s
  refine ⟨fun i hi hr hfixed ↦ ?_, fun hfree ↦ ?_⟩
  · exact jointTorque_calcABMPhases t g solve s hI hdd i hi hr ((htype i).symm.trans_ne hfixed)
  · have hfree' : (s t.root).jointType = .freeJoint := (htype _).symm.trans hfree
    exact rootForce_calcABMPhases t g solve s hfree' (hroot hfree') hsolve

/-- A free body with one joint on the axis `x`, driven by a unit torque. -/
def oneJointArm (i : Fin 2) : Link ℚ :=
  if i = 0 then { Link.blank with jointType := .freeJoint, m := 1, I := 1 }
  else
    { Link.blank with
      jointType := .rotationalJoint, jointId := 0, a := ![1, 0, 0], m := 1, I := 1, u := 1 }

theorem satisfiesNewtonEuler_oneJointArm :
    SatisfiesNewtonEuler oneJointTree (calcABMPhase1 oneJointTree 0 oneJointArm)
      (calcABMPhase3 oneJointTree (fun A b ↦ A⁻¹ *ᵥ b)
        (calcABMPhase2 oneJointTree (calcABMPhase1 oneJointTree 0 oneJointArm))) := by
  refine satisfiesNewtonEuler _ _ _ _ (by decide +kernel) (by decide +kernel) (fun _ ↦ ?_)
    fun A b hA ↦ ?_
  · have hinv : articulatedInertia
        (calcABMPhase2 oneJointTree (calcABMPhase1 oneJointTree 0 oneJointArm) 0) *
        fromBlocks !![1 / 2, 0, 0; 0, 1 / 2, 0; 0, 0, 1 / 2] 0 0
          !![1, 0, 0; 0, 1 / 2, 0; 0, 0, 1 / 2] = 1 := by
      decide +kernel
    exact isUnit_det_of_right_inverse hinv
  · rw [mulVec_mulVec, mul_nonsing_inv _ hA, one_mulVec]

/-- A fixed base with two joints in one place, on the axes `x` and `y`, the outer link with an
inertia tensor that is not symmetric. -/
def twoLinkArm (i : Fin 3) : Link ℚ :=
  if i = 0 then Link.blank
  else if i = 1 then
    { Link.blank with
      jointType := .rotationalJoint, jointId := 0, a := ![1, 0, 0], m := 1, I := 1, u := 1 }
  else
    { Link.blank with
      jointType := .rotationalJoint, jointId := 1, a := ![0, 1, 0], m := 1,
      I := !![1, 1, 0; 0, 1, 0; 0, 0, 1] }

/-- The tree of `twoLinkArm`. -/
def twoLinkTree : LinkTree (Fin 3) :=
  ⟨0, .link 1 (.link 2 .null .null) .null, by decide⟩

/-- Without symmetric inertia tensors the equations fail: every `dd` is nonzero, no root is free,
and the outer joint is left with a force that no torque accounts for. -/
theorem not_satisfiesNewtonEuler_twoLinkArm :
    (∀ i ∈ twoLinkTree.links, i ≠ twoLinkTree.root → (twoLinkArm i).jointType ≠ .fixedJoint →
      (calcABMPhase2 twoLinkTree (calcABMPhase1 twoLinkTree 0 twoLinkArm) i).dd ≠ 0) ∧
    (twoLinkArm twoLinkTree.root).jointType = .fixedJoint ∧
    ¬SatisfiesNewtonEuler twoLinkTree (calcABMPhase1 twoLinkTree 0 twoLinkArm)
      (calcABMPhase3 twoLinkTree (fun A b ↦ A⁻¹ *ᵥ b)
        (calcABMPhase2 twoLinkTree (calcABMPhase1 twoLinkTree 0 twoLinkArm))) := by
  refine ⟨by decide +kernel, rfl, fun h ↦ ?_⟩
  have h2 := h.joint 2 (by decide) (by decide) (by decide +kernel)
  revert h2
  decide +kernel

end Main

end ForwardDynamicsABM

end OpenHRP
