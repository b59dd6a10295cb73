import OpenHRP.Dynamics.NewtonEuler

/-!
# The equations of motion have one solution

The three phases of the articulated-body method find accelerations that satisfy the equations of
motion. Under the conditions for that they are the only ones: whatever accelerations satisfy the
equations, the force on a link is its articulated inertia applied to its acceleration plus its
articulated bias force (`SolvesMotion.linkForce_eq`), so that a joint leaves no choice for the
acceleration of its link (`SolvesMotion.accel_eq`).
-/

open Matrix

namespace OpenHRP

namespace ForwardDynamicsABM

variable {ι K : Type*} [DecidableEq ι] [Field K]

/-- The accelerations of the state `s₃` solve the equations of motion of the state `s₁` after phase
1: they follow from those of the joints, satisfy the Newton-Euler equations, and a root that is not
free stays at rest. -/
structure SolvesMotion (t : LinkTree ι) (s₁ s₃ : Store ι K) : Prop
    extends SatisfiesNewtonEuler t s₁ s₃ where
  accel_joint : ∀ p c, t.parent c = some p →
    accel (s₃ c) = accel (s₃ p) + crossVelocity (s₁ c) + (s₃ c).ddq • axis (s₁ c)
  accel_root : (s₁ t.root).jointType ≠ .freeJoint → accel (s₃ t.root) = 0

variable [CMath K] {t : LinkTree ι} {g : Vector3 K} {s s₃ : Store ι K}

theorem axis_calcABMPhase1 {p i : ι} (hp : t.parent i = some p)
    (hfixed : (s i).jointType = .fixedJoint) : axis (calcABMPhase1 t g s i) = 0 := by
  have heq : calcABMPhase1 t g s i =
      calcABMPhase1Link g ((t.parent i).map (calcABMPhase1 t g s)) (s i) :=
    t.forwardLoop_eq _ s (t.parent_mem hp).2
  rw [heq, hp]
  show axis (calcABMPhase1Joint _ (s i)) = 0
  rw [calcABMPhase1Joint, hfixed]
  rfl

section Joint

variable (hI : ∀ i ∈ t.links, (s i).I.IsSymm)
  (hdd : ∀ i ∈ t.links, i ≠ t.root → (s i).jointType ≠ .fixedJoint →
    (calcABMPhase2 t (calcABMPhase1 t g s) i).dd ≠ 0)

include hI hdd

/-- The torque of a moving joint determines its acceleration from that of the parent, once the force
on the link is known. -/
theorem SolvesMotion.ddq_eq (h : SolvesMotion t (calcABMPhase1 t g s) s₃) {p c : ι}
    (hpc : t.parent c = some p) (hmoving : (s c).jointType ≠ .fixedJoint)
    (hforce : linkForce t (calcABMPhase1 t g s) s₃ c =
      inertiaMap (calcABMPhase2 t (calcABMPhase1 t g s) c) (accel (s₃ c)) +
        biasForce (calcABMPhase2 t (calcABMPhase1 t g s) c)) :
    let link := calcABMPhase2 t (calcABMPhase1 t g s) c
    (s₃ c).ddq = ArticulatedBody.jointAccel spatialDot (inertiaMap link) (biasForce link)
      (joint link) (accel (s₃ p)) := by
  intro link
  set s₁ := calcABMPhase1 t g s with hs₁
  have hc := (t.parent_mem hpc).2
  have htype : (s₁ c).jointType ≠ .fixedJoint := (calcABMPhase1_jointType t g s c).trans_ne hmoving
  have hready : JointReady link :=
    jointReady_calcABMPhase2 t s₁ hc (t.ne_root_of_parent hpc) htype
  have hjoint : joint link = joint (s₁ c) := (calcABMPhase2_frame t s₁ c).2
  have hself : ArticulatedBody.SelfAdjoint spatialDot (inertiaMap link) :=
    selfAdjoint_calcABMPhase2 t s₁ (fun i hi ↦ selfAdjoint_calcABMPhase1 t g s hi (hI i hi)) c hc
  refine ArticulatedBody.eq_jointAccel hself ?_ ?_
  · rw [← hready.dd]
    exact hdd c hc (t.ne_root_of_parent hpc) hmoving
  · have htorque := h.joint c hc (t.ne_root_of_parent hpc) htype
    rw [hforce, h.accel_joint p c hpc] at htorque
    rw [hjoint]
    exact htorque

/-- What a child needs is what it has passed to its parent. -/
theorem SolvesMotion.articulatedForce_child (h : SolvesMotion t (calcABMPhase1 t g s) s₃) {p c : ι}
    (hpc : t.parent c = some p)
    (hforce : linkForce t (calcABMPhase1 t g s) s₃ c =
      inertiaMap (calcABMPhase2 t (calcABMPhase1 t g s) c) (accel (s₃ c)) +
        biasForce (calcABMPhase2 t (calcABMPhase1 t g s) c)) :
    let link := calcABMPhase2 t (calcABMPhase1 t g s) c
    linkForce t (calcABMPhase1 t g s) s₃ c =
      (passedInertia link).toLin (accel (s₃ p)) + passedForce link := by
  intro link
  have hddq := h.ddq_eq hI hdd hpc
  set s₁ := calcABMPhase1 t g s with hs₁
  have htype : link.jointType = (s c).jointType :=
    (calcABMPhase2_frame t s₁ c).1.trans (calcABMPhase1_jointType t g s c)
  have hjoint : joint link = joint (s₁ c) := (calcABMPhase2_frame t s₁ c).2
  rw [hforce, h.accel_joint p c hpc]
  by_cases hfixed : (s c).jointType = .fixedJoint
  · have hzero : ((link.cv, link.cw) : Spatial K) = 0 :=
      (congrArg ArticulatedBody.Joint.bias hjoint).trans
        (crossVelocity_calcABMPhase1 t g s hpc hfixed)
    rw [axis_calcABMPhase1 hpc hfixed, crossVelocity_calcABMPhase1 t g s hpc hfixed, smul_zero,
      add_zero, add_zero, passedForce, passedDrive, if_neg (not_not.2 (htype.trans hfixed)),
      passedInertia, if_pos (htype.trans hfixed), passedBias, hzero, map_zero, zero_add, add_zero]
  · have hready : JointReady link := jointReady_calcABMPhase2 t s₁ (t.parent_mem hpc).2
      (t.ne_root_of_parent hpc) ((calcABMPhase1_jointType t g s c).trans_ne hfixed)
    have hmoving : link.jointType ≠ .fixedJoint := htype.trans_ne hfixed
    rw [toLin_passedInertia hready hmoving, passedForce_eq hready hmoving, hddq hfixed hforce]
    have hlink := ArticulatedBody.joint_force (B := spatialDot) (inertiaMap link) (biasForce link)
      (joint link) (accel (s₃ p))
    rw [← hlink, hjoint]
    rfl

/-- The force on a link is its articulated inertia applied to its acceleration, plus its articulated
bias force. -/
theorem SolvesMotion.linkForce_eq (h : SolvesMotion t (calcABMPhase1 t g s) s₃) :
    ∀ i ∈ t.links, linkForce t (calcABMPhase1 t g s) s₃ i =
      inertiaMap (calcABMPhase2 t (calcABMPhase1 t g s) i) (accel (s₃ i)) +
        biasForce (calcABMPhase2 t (calcABMPhase1 t g s) i) := by
  refine t.children_induction fun i hi ih ↦ ?_
  have hchild : ∀ c ∈ t.children i, linkForce t (calcABMPhase1 t g s) s₃ c =
      (passedInertia (calcABMPhase2 t (calcABMPhase1 t g s) c)).toLin (accel (s₃ i)) +
        passedForce (calcABMPhase2 t (calcABMPhase1 t g s) c) := fun c hc ↦
    h.articulatedForce_child hI hdd (t.mem_children.1 hc) (ih c hc)
  set s₁ := calcABMPhase1 t g s with hs₁
  have happly := map_list_sum (LinearMap.applyₗ (accel (s₃ i)))
    ((t.children i).map fun c ↦ (passedInertia (calcABMPhase2 t s₁ c)).toLin)
  rw [List.map_map] at happly
  rw [ForwardDynamicsABM.linkForce_eq, List.map_congr_left hchild, List.sum_map_add,
    inertiaMap_calcABMPhase2 t s₁ hi, biasForce_calcABMPhase2 t s₁ hi, LinearMap.add_apply]
  refine Eq.trans ?_ (congrArg (fun x ↦ inertiaMap (s₁ i) (accel (s₃ i)) + x + _) happly.symm)
  show _ + _ - _ + (((t.children i).map fun c ↦ (passedInertia (calcABMPhase2 t s₁ c)).toLin
    (accel (s₃ i))).sum + _) = _ + ((t.children i).map fun c ↦
      (passedInertia (calcABMPhase2 t s₁ c)).toLin (accel (s₃ i))).sum + _
  abel

omit [DecidableEq ι] [CMath K] hI hdd in
theorem inertiaMap_injective {link : Link K} (h : IsUnit (articulatedInertia link).det) :
    Function.Injective (inertiaMap link) := by
  have hblocks (x : Spatial K) : articulatedInertia link *ᵥ Sum.elim x.1 x.2 =
      Sum.elim (inertiaMap link x).1 (inertiaMap link x).2 := by
    rw [articulatedInertia, fromBlocks_mulVec]
    rfl
  have hinj := Matrix.mulVec_injective_of_isUnit ((Matrix.isUnit_iff_isUnit_det _).2 h)
  intro x y hxy
  have heq : Sum.elim x.1 x.2 = Sum.elim y.1 y.2 := hinj (by rw [hblocks, hblocks, hxy])
  exact Prod.ext (funext fun k ↦ congrFun heq (.inl k)) (funext fun k ↦ congrFun heq (.inr k))

/-- **The equations of motion have one solution.** -/
theorem SolvesMotion.accel_eq (h : SolvesMotion t (calcABMPhase1 t g s) s₃) {solve : Solver K}
    (hsolve : ∀ A b, IsUnit A.det → A *ᵥ solve A b = b)
    (hroot : (s t.root).jointType = .freeJoint →
      IsUnit (articulatedInertia (calcABMPhase2 t (calcABMPhase1 t g s) t.root)).det) :
    ∀ i ∈ t.links, accel (s₃ i) = accel (calcABMPhases t g solve s i) := by
  have hforce := h.linkForce_eq hI hdd
  have hddq := @SolvesMotion.ddq_eq _ _ _ _ _ _ _ _ _ hI hdd h
  rw [calcABMPhases]
  set s₁ := calcABMPhase1 t g s with hs₁
  set s₂ := calcABMPhase2 t s₁ with hs₂
  have htype (i : ι) : (s₂ i).jointType = (s i).jointType :=
    (calcABMPhase2_frame t s₁ i).1.trans (calcABMPhase1_jointType t g s i)
  refine t.parent_induction ?_ fun p c hpc ih ↦ ?_
  · rw [calcABMPhase3_root]
    by_cases hfree : (s t.root).jointType = .freeJoint
    · have hbalance := accel_calcABMPhase3Root (hsolve _ (-Sum.elim (s₂ t.root).pf (s₂ t.root).ptau)
        (hroot hfree)) ((htype _).trans hfree)
      have hzero := h.root ((calcABMPhase1_jointType t g s _).trans hfree)
      rw [hforce _ t.root_mem] at hzero
      exact inertiaMap_injective (hroot hfree) (add_right_cancel (hzero.trans hbalance.symm))
    · rw [h.accel_root ((calcABMPhase1_jointType t g s _).trans_ne hfree), calcABMPhase3Root,
        if_neg ((htype _).trans_ne hfree)]
      rfl
  · have hc := (t.parent_mem hpc).2
    rw [calcABMPhase3_joint t solve s₂ hpc, h.accel_joint p c hpc, ih]
    by_cases hfixed : (s c).jointType = .fixedJoint
    · rw [accel_calcABMPhase3Joint_fixed ((htype c).trans hfixed), axis_calcABMPhase1 hpc hfixed,
        crossVelocity_calcABMPhase1 t g s hpc hfixed, smul_zero, add_zero, add_zero]
    · have hready : JointReady (s₂ c) := jointReady_calcABMPhase2 t s₁ hc
        (t.ne_root_of_parent hpc) ((calcABMPhase1_jointType t g s c).trans_ne hfixed)
      have hjoint : joint (s₂ c) = joint (s₁ c) := (calcABMPhase2_frame t s₁ c).2
      obtain ⟨hddq₃, haccel₃⟩ := accel_calcABMPhase3Joint (calcABMPhase3 t solve s₂ p) hready
        ((htype c).trans_ne hfixed)
      rw [haccel₃, hddq₃, hddq hpc hfixed (hforce c hc), ih]
      have hcross : crossVelocity (s₂ c) = crossVelocity (s₁ c) :=
        congrArg ArticulatedBody.Joint.bias hjoint
      have haxis : axis (s₂ c) = axis (s₁ c) := congrArg ArticulatedBody.Joint.axis hjoint
      rw [hcross, haxis]

end Joint

end ForwardDynamicsABM

end OpenHRP
