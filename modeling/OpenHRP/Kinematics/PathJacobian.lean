import OpenHRP.Foundations.Twist
import OpenHRP.Kinematics.JointPathSearch
import OpenHRP.Kinematics.PathPose
import OpenHRP.Kinematics.Rodrigues
import Mathlib.Analysis.SpecialFunctions.Trigonometric.Deriv

/-!
# The Jacobian of a joint path

A column of `calcJacobian` should be the velocity of a point of the end link, and the angular
velocity of that link, for one joint that moves while the base stays. When one joint value changes,
the links behind the joint, seen from the base, move with one twist, and the others stay
(`IsPath.movesWith`). That twist is what a column is computed from, with the sign turned for a joint
met from below.

So the Jacobian is the derivative of forward kinematics, unless the path turns at a joint: its
column is not zero, but that joint moves nothing (`find_jacobian_iff`).
-/

open Matrix

namespace OpenHRP

variable {ι : Type*}

/-! ### Joints that move -/

/-- The axes that a joint uses have length one. -/
def UnitAxis (link : Link ℝ) : Prop :=
  (link.jointType = .rotationalJoint → link.a ⬝ᵥ link.a = 1) ∧
    (link.jointType = .slideJoint → link.d ⬝ᵥ link.d = 1)

theorem isRotation_rodrigues_real {a : Vector3 ℝ} (ha : a ⬝ᵥ a = 1) (q : ℝ) :
    IsRotation (rodrigues a q) :=
  isRotation_rodrigues ha (Real.sin_sq_add_cos_sq q)

theorem UnitAxis.isRotation {link : Link ℝ} (h : UnitAxis link) :
    IsRotation (jointRotation link) := by
  rw [jointRotation]
  cases hty : link.jointType with
  | rotationalJoint => exact isRotation_rodrigues_real (h.1 hty) link.q
  | slideJoint => exact IsRotation.one
  | fixedJoint => exact IsRotation.one
  | freeJoint => exact IsRotation.one

/-- A rotation about an axis of length one has the axis as its angular velocity. -/
theorem hasDerivAt_rodrigues {a : Vector3 ℝ} (ha : a ⬝ᵥ a = 1) (q : ℝ) (i k : Fin 3) :
    HasDerivAt (fun x ↦ rodrigues a x i k) ((hat a * rodrigues a q) i k) q := by
  have hcube : hat a * (hat a * hat a) = -hat a := by
    rw [hat_mul_hat_mul_hat, ha, neg_smul, one_smul]
  have heq : hat a * rodrigues a q = Real.cos q • hat a + Real.sin q • (hat a * hat a) := by
    rw [rodrigues_eq, mul_add, mul_add, mul_one, mul_smul_comm, mul_smul_comm, hcube]
    show _ + Real.sin q • _ + (1 - Real.cos q) • _ = _
    module
  have hentry (x : ℝ) : rodrigues a x i k =
      (1 : Matrix33 ℝ) i k + Real.sin x * hat a i k + (1 - Real.cos x) * (hat a * hat a) i k := by
    rw [rodrigues_eq]
    rfl
  rw [heq]
  simp only [hentry]
  refine (((Real.hasDerivAt_sin q).mul_const (hat a i k)).const_add ((1 : Matrix33 ℝ) i k)).add
    (((Real.hasDerivAt_cos q).const_sub 1).mul_const ((hat a * hat a) i k)) |>.congr_deriv ?_
  rw [neg_neg]
  rfl

/-- The transposed rotation turns the other way. -/
theorem hasDerivAt_rodrigues_transpose {a : Vector3 ℝ} (ha : a ⬝ᵥ a = 1) (q : ℝ) (i k : Fin 3) :
    HasDerivAt (fun x ↦ (rodrigues a x)ᵀ i k) ((hat (-a) * (rodrigues a q)ᵀ) i k) q := by
  have hcomm : hat a * rodrigues a q = rodrigues a q * hat a := by
    rw [rodrigues_eq]
    simp only [mul_add, add_mul, mul_one, one_mul, mul_smul_comm, smul_mul_assoc, Matrix.mul_assoc]
  have heq : hat (-a) * (rodrigues a q)ᵀ = (hat a * rodrigues a q)ᵀ := by
    rw [hcomm, transpose_mul, hat_transpose, hat_neg]
  rw [heq]
  exact hasDerivAt_rodrigues ha q k i

/-! ### The twist of a joint -/

/-- A pose as a rigid transform. -/
def poseTransform (P : Vector3 ℝ × Matrix33 ℝ) : RigidTransform ℝ :=
  ⟨P.1, P.2⟩

/-- The pose of a link from that of its parent, as a rigid transform. -/
noncomputable def downwardTransform (link : Link ℝ) : RigidTransform ℝ :=
  ⟨jointOffset link, jointRotation link⟩

/-- The pose of a parent from that of its child, as a rigid transform. -/
noncomputable def upwardTransform (link : Link ℝ) : RigidTransform ℝ :=
  ⟨-((jointRotation link)ᵀ *ᵥ jointOffset link), (jointRotation link)ᵀ⟩

theorem poseTransform_downward (P : Vector3 ℝ × Matrix33 ℝ) (link : Link ℝ) :
    poseTransform (downwardPose P link) = poseTransform P * downwardTransform link :=
  rfl

theorem poseTransform_upward (P : Vector3 ℝ × Matrix33 ℝ) (link : Link ℝ) :
    poseTransform (upwardPose P link) = poseTransform P * upwardTransform link := by
  refine RigidTransform.ext ?_ rfl
  show P.1 - _ = P.1 + P.2 *ᵥ -_
  rw [mulVec_neg, mulVec_mulVec, sub_eq_add_neg]

/-- The twist of the links behind a joint when its value grows: the velocity at the origin and the
angular velocity. -/
def jointTwistAt (isJointDownward : Bool) (link : Link ℝ) : Vector3 ℝ × Vector3 ℝ :=
  match link.jointType with
  | .rotationalJoint =>
    let omega := if isJointDownward then link.R *ᵥ link.a else -(link.R *ᵥ link.a)
    (-cross omega link.p, omega)
  | .slideJoint => (if isJointDownward then link.R *ᵥ link.d else -(link.R *ᵥ link.d), 0)
  | .fixedJoint | .freeJoint => (0, 0)

/-- A column of the Jacobian is what the twist of its joint does to the point of the end link. -/
theorem jacobianColumn_eq (targetLink : Link ℝ) (localP : Vector3 ℝ) (isJointDownward : Bool)
    (link : Link ℝ) :
    JointPath.jacobianColumn targetLink localP isJointDownward link =
      ((jointTwistAt isJointDownward link).1 + cross (jointTwistAt isJointDownward link).2
        (targetLink.p + targetLink.R *ᵥ localP), (jointTwistAt isJointDownward link).2) := by
  rw [JointPath.jacobianColumn, jointTwistAt]
  cases link.jointType with
  | rotationalJoint =>
    refine Prod.ext ?_ rfl
    dsimp only
    rw [cross, map_sub]
    abel
  | slideJoint => simp [cross]
  | fixedJoint => simp [cross]
  | freeJoint => simp [cross]

section Step

variable {link : Link ℝ}

theorem jointType_cases (link : Link ℝ) :
    link.jointType = .rotationalJoint ∨ link.jointType = .slideJoint ∨
      (link.jointType = .fixedJoint ∨ link.jointType = .freeJoint) := by
  cases link.jointType <;> simp

/-- A joint that is fixed does not use its value. -/
theorem joint_of_fixed (hty : link.jointType = .fixedJoint ∨ link.jointType = .freeJoint) (x : ℝ) :
    jointRotation { link with q := x } = 1 ∧ jointOffset { link with q := x } = link.b := by
  rw [jointRotation, jointOffset]
  rcases hty with hty | hty <;> simp only [hty, and_self]

theorem jointTwistAt_of_fixed (hty : link.jointType = .fixedJoint ∨ link.jointType = .freeJoint)
    (isJointDownward : Bool) : jointTwistAt isJointDownward link = 0 := by
  rw [jointTwistAt]
  rcases hty with hty | hty <;> simp only [hty] <;> rfl

/-- The joint of a link reached from its parent. -/
theorem hasTwistAt_downward (h : UnitAxis link) {P : Vector3 ℝ × Matrix33 ℝ}
    (hP : IsRotation P.2) (hlink : pose link = downwardPose P link) :
    HasTwistAt (fun x ↦ poseTransform (downwardPose P { link with q := x }))
      (jointTwistAt true link).1 (jointTwistAt true link).2 link.q := by
  have hp : link.p = P.1 + P.2 *ᵥ jointOffset link := congrArg Prod.fst hlink
  have hR : link.R = P.2 * jointRotation link := congrArg Prod.snd hlink
  rcases jointType_cases link with hty | hty | hty
  · have hfamily (x : ℝ) : poseTransform (downwardPose P { link with q := x }) =
        ⟨link.p, P.2⟩ * RigidTransform.rot (rodrigues link.a x) := by
      rw [downwardPose, hp, jointOffset, jointRotation, jointOffset]
      simp only [hty]
      exact RigidTransform.ext (by simp [poseTransform]) rfl
    have haxis : link.R *ᵥ link.a = P.2 *ᵥ link.a := by
      rw [hR, ← mulVec_mulVec, jointRotation]
      simp only [hty, rodrigues_mulVec_axis]
    have htwist : jointTwistAt true link =
        (P.2 *ᵥ 0 - cross (P.2 *ᵥ link.a) link.p, P.2 *ᵥ link.a) := by
      rw [jointTwistAt]
      simp only [hty, if_true, haxis, mulVec_zero, zero_sub]
    simp only [hfamily, htwist]
    exact (HasTwistAt.rot (hasDerivAt_rodrigues (h.1 hty) link.q)).const_mul
      (show IsRotation (RigidTransform.R ⟨link.p, P.2⟩) from hP)
  · have hfamily (x : ℝ) : poseTransform (downwardPose P { link with q := x }) =
        poseTransform P * RigidTransform.trans (link.b + x • link.d) := by
      rw [downwardPose, jointRotation, jointOffset]
      simp only [hty]
      rfl
    have htwist : jointTwistAt true link = (P.2 *ᵥ link.d - cross (P.2 *ᵥ 0) P.1, P.2 *ᵥ 0) := by
      rw [jointTwistAt, hR, jointRotation]
      simp [hty, cross]
    simp only [hfamily, htwist]
    exact (HasTwistAt.trans link.b link.d link.q).const_mul
      (show IsRotation (poseTransform P).R from hP)
  · simp only [downwardPose, (joint_of_fixed hty _).1, (joint_of_fixed hty _).2,
      jointTwistAt_of_fixed hty]
    exact .const _ _

/-- The joint of a link left for its parent. -/
theorem hasTwistAt_upward (h : UnitAxis link) (hR : IsRotation link.R) :
    HasTwistAt (fun x ↦ poseTransform (upwardPose (pose link) { link with q := x }))
      (jointTwistAt false link).1 (jointTwistAt false link).2 link.q := by
  have hP : IsRotation (poseTransform (pose link)).R := hR
  rcases jointType_cases link with hty | hty | hty
  · have hfamily (x : ℝ) : poseTransform (upwardPose (pose link) { link with q := x }) =
        poseTransform (pose link) * RigidTransform.rot (rodrigues link.a x)ᵀ *
          RigidTransform.trans (-link.b) := by
      rw [upwardPose, jointOffset, jointRotation]
      simp only [hty]
      exact RigidTransform.ext (by simp [poseTransform, mulVec_neg, sub_eq_add_neg])
        (by simp [poseTransform])
    have htwist : jointTwistAt false link =
        (link.R *ᵥ 0 - cross (link.R *ᵥ -link.a) link.p, link.R *ᵥ -link.a) := by
      rw [jointTwistAt]
      simp [hty, mulVec_neg]
    simp only [hfamily, htwist]
    have hrot := HasTwistAt.rot (hasDerivAt_rodrigues_transpose (h.1 hty) link.q)
    exact (hrot.const_mul hP).mul_const
      _
  · have hfamily (x : ℝ) : poseTransform (upwardPose (pose link) { link with q := x }) =
        poseTransform (pose link) * RigidTransform.trans (-link.b + x • -link.d) := by
      rw [upwardPose, jointOffset, jointRotation]
      simp only [hty]
      refine RigidTransform.ext ?_ (by simp [poseTransform])
      simp [poseTransform, mulVec_neg, mulVec_add, sub_eq_add_neg, add_comm]
    have htwist : jointTwistAt false link =
        (link.R *ᵥ -link.d - cross (link.R *ᵥ 0) link.p, link.R *ᵥ 0) := by
      rw [jointTwistAt]
      simp [hty, cross, mulVec_neg]
    simp only [hfamily, htwist]
    exact (HasTwistAt.trans (-link.b) (-link.d) link.q).const_mul hP
  · simp only [upwardPose, (joint_of_fixed hty _).1, (joint_of_fixed hty _).2,
      jointTwistAt_of_fixed hty]
    exact .const _ _

end Step

/-! ### One joint of a path -/

section Path

variable [DecidableEq ι] {t : LinkTree ι} {base endLink top : ι} {ups downs : List ι}
  {tr : LinkTraverse ι} {s : Store ι ℝ}

/-- Induction along a traverse, over links that are on it. -/
theorem IsTraverse.mem_induction (h : IsTraverse t base ups downs tr) {P : ι → Prop}
    (hbase : P base)
    (hup : ∀ c p, (∃ l l', base :: ups = l ++ c :: p :: l') → c ∈ tr.links → p ∈ tr.links →
      t.parent c = some p → P c → P p)
    (hdown : ∀ p, ∀ c ∈ downs, p ∈ tr.links → c ∈ tr.links → t.parent c = some p → P p → P c) :
    ∀ i ∈ tr.links, P i := by
  have hlinks : tr.links = base :: ups ++ downs := congrArg LinkTraverse.links h.eq
  intro i hi
  refine (h.induction (P := fun i ↦ i ∈ tr.links ∧ P i) ⟨by simp [hlinks], hbase⟩
    (fun c p hcp hc ↦ ?_) (fun p c hc hpc hp ↦ ?_) i hi).2
  · obtain ⟨l, l', hl⟩ := hcp
    have hpc : t.parent c = some p := by
      have hasc := h.ascends
      rw [hl, Ascends, List.isChain_append] at hasc
      exact (List.isChain_cons_cons.1 hasc.2.1).1
    have hp : p ∈ tr.links := by
      rw [hlinks, hl]
      simp
    exact ⟨hp, hup c p ⟨l, l', hl⟩ hc.1 hp hpc hc.2⟩
  · have hc' : c ∈ tr.links := by
      rw [hlinks]
      exact List.mem_append_right _ hc
    exact ⟨hc', hdown p c hc hp.1 hc' hpc hp.2⟩

/-- The attitudes along a traverse are rotations. -/
theorem isRotation_of_agrees (h : IsTraverse t base ups downs tr) (hR : IsRotation (s base).R)
    (hunit : ∀ i ∈ tr.links, UnitAxis (s i)) (hagrees : AgreesWithFK t tr s) :
    ∀ i ∈ tr.links, IsRotation (s i).R := by
  have hpose {i : ι} (hi : i ∈ tr.links) := hagrees i hi
  refine h.mem_induction hR (fun c p hcp hc hp _ hRc ↦ ?_) fun p c hcd hp hc hpc hRp ↦ ?_
  · have hstep := pose_upward h false false s hcp
    rw [hpose hc, hpose hp] at hstep
    have hRp : (s p).R = (s c).R * (jointRotation (s c))ᵀ := congrArg Prod.snd hstep
    rw [hRp]
    exact hRc.mul (hunit c hc).isRotation.transpose
  · have hstep := pose_downward h false false s hpc hcd
    rw [hpose hc, hpose hp] at hstep
    have hRc : (s c).R = (s p).R * jointRotation (s c) := congrArg Prod.snd hstep
    rw [hRc]
    exact hRp.mul (hunit c hc).isRotation

theorem setJointValue_apply_self (s : Store ι ℝ) (j : ι) (q : ℝ) :
    setJointValue s j q j = { s j with q := q } :=
  Function.update_self j _ s

/-- What the value of the joint `j` does to the link `i` of a traverse: the links on the side of the
base stay, the others move with the twist of the joint. -/
structure MovesWith (t : LinkTree ι) (tr : LinkTraverse ι) (s : Store ι ℝ) (base j i : ι) :
    Prop where
  stays : (i ∈ t.below j ↔ base ∈ t.below j) → ∀ x,
    pose (calcForwardKinematics t tr false false (setJointValue s j x) i) = pose (s i)
  moves : ¬(i ∈ t.below j ↔ base ∈ t.below j) → HasTwistAt
    (fun x ↦ poseTransform
      (pose (calcForwardKinematics t tr false false (setJointValue s j x) i)))
    (jointTwistAt (base ∉ t.below j) (s j)).1 (jointTwistAt (base ∉ t.below j) (s j)).2 (s j).q

/-- **One joint of a path** moves the links on its other side, with its twist. -/
theorem IsPath.movesWith (h : IsPath t base endLink ups top downs) (hR : IsRotation (s base).R)
    (hunit : ∀ i ∈ ups ++ top :: downs, UnitAxis (s i))
    (hagrees : AgreesWithFK t ⟨ups ++ top :: downs, ups.length⟩ s) (j : ι) :
    ∀ i ∈ ups ++ top :: downs, MovesWith t ⟨ups ++ top :: downs, ups.length⟩ s base j i := by
  obtain ⟨ups', hups, htr⟩ := h.exists_isTraverse
  have hrot := isRotation_of_agrees htr hR hunit hagrees
  refine htr.mem_induction ?_ (fun c p hcp hc hp hpc ih ↦ ?_) fun p c hcd hp hc hpc ih ↦ ?_
  · refine ⟨fun _ x ↦ ?_, fun hnot ↦ absurd Iff.rfl hnot⟩
    rw [pose_base htr, pose_setJointValue]
  · -- going up, `c` is the link of the joint passed
    have hstep (x : ℝ) := pose_upward htr false false (setJointValue s j x) hcp
    have hagree := pose_upward htr false false s hcp
    rw [hagrees c hc, hagrees p hp] at hagree
    rcases eq_or_ne c j with rfl | hcj
    · have hbase : base ∈ t.below c := by
        obtain ⟨l, l', hl⟩ := hcp
        refine h.base_mem_below ?_
        rw [hups, hl]
        simp
      have hup : ¬(p ∈ t.below c ↔ base ∈ t.below c) := fun hiff ↦
        t.notMem_below_of_parent hpc (hiff.2 hbase)
      refine ⟨fun hiff ↦ absurd hiff hup, fun _ ↦ ?_⟩
      simp only [hstep, ih.stays (iff_of_true List.mem_cons_self hbase),
        setJointValue_apply_self, hbase, not_true_eq_false, decide_false]
      exact hasTwistAt_upward (hunit c hc) (hrot c hc)
    · have hside : (p ∈ t.below j ↔ base ∈ t.below j) ↔ (c ∈ t.below j ↔ base ∈ t.below j) := by
        rw [t.mem_below_iff_of_parent hpc hcj]
      simp only [setJointValue_of_ne s hcj] at hstep
      refine ⟨fun hiff x ↦ ?_, fun hnot ↦ ?_⟩
      · rw [hstep, ih.stays (hside.1 hiff), ← hagree]
      · simp only [hstep, poseTransform_upward]
        exact (ih.moves fun hiff ↦ hnot (hside.2 hiff)).mul_const _
  · -- going down, `c` is the link of the joint passed as well
    have hstep (x : ℝ) := pose_downward htr false false (setJointValue s j x) hpc hcd
    have hagree := pose_downward htr false false s hpc hcd
    rw [hagrees c hc, hagrees p hp] at hagree
    rcases eq_or_ne c j with rfl | hcj
    · have hbase : base ∉ t.below c := h.base_notMem hcd
      have hdown : ¬(c ∈ t.below c ↔ base ∈ t.below c) := fun hiff ↦
        hbase (hiff.1 List.mem_cons_self)
      refine ⟨fun hiff ↦ absurd hiff hdown, fun _ ↦ ?_⟩
      simp only [hstep, ih.stays (iff_of_false (t.notMem_below_of_parent hpc) hbase),
        setJointValue_apply_self, hbase, not_false_eq_true, decide_true]
      exact hasTwistAt_downward (hunit c hc) (hrot p hp) hagree
    · have hside : (c ∈ t.below j ↔ base ∈ t.below j) ↔ (p ∈ t.below j ↔ base ∈ t.below j) := by
        rw [t.mem_below_iff_of_parent hpc hcj]
      simp only [setJointValue_of_ne s hcj] at hstep
      refine ⟨fun hiff x ↦ ?_, fun hnot ↦ ?_⟩
      · rw [hstep, ih.stays (hside.1 hiff), ← hagree]
      · simp only [hstep, poseTransform_downward]
        exact (ih.moves fun hiff ↦ hnot (hside.2 hiff)).mul_const _

end Path

/-! ### The columns of the Jacobian -/

section Jacobian

variable [DecidableEq ι] {t : LinkTree ι} {base endLink top : ι} {ups downs : List ι}
  {s : Store ι ℝ}

/-- A link that depends on a number moves at `q` with the velocities of `column`: the one of its
point `localP`, and its angular velocity. -/
structure HasVelocityAt (link : ℝ → Link ℝ) (localP : Vector3 ℝ)
    (column : Vector3 ℝ × Vector3 ℝ) (q : ℝ) : Prop where
  linear : HasDerivAt (fun x ↦ (link x).p + (link x).R *ᵥ localP) column.1 q
  angular : ∀ i k, HasDerivAt (fun x ↦ (link x).R i k) ((hat column.2 * (link q).R) i k) q

/-- The Jacobian has one column for each joint: the velocities of the end link, as forward
kinematics of the path computes it, when the value of that joint changes. -/
def JacobianIsDerivative (t : LinkTree ι) (s : Store ι ℝ) (endLink : ι) (path : JointPath ι) :
    Prop :=
  ∀ localP : Vector3 ℝ, (path.calcJacobian s localP).length = path.joints.length ∧
    ∀ (k : ℕ) (j : ι) (column : Vector3 ℝ × Vector3 ℝ), path.joints[k]? = some j →
      (path.calcJacobian s localP)[k]? = some column →
      HasVelocityAt
        (fun x ↦ calcForwardKinematics t path.linkPath false false (setJointValue s j x) endLink)
        localP column (s j).q

theorem hasVelocityAt_of_hasTwistAt {link : ℝ → Link ℝ} {vo w : Vector3 ℝ} {q : ℝ}
    (h : HasTwistAt (fun x ↦ poseTransform (pose (link x))) vo w q) (localP : Vector3 ℝ) :
    HasVelocityAt link localP (vo + cross w ((link q).p + (link q).R *ᵥ localP), w) q :=
  ⟨h.point localP, h.R⟩

/-- The column of a joint between the base and the end. -/
theorem IsPath.hasVelocityAt (h : IsPath t base endLink ups top downs) (hR : IsRotation (s base).R)
    (hunit : ∀ i ∈ ups ++ top :: downs, UnitAxis (s i))
    (hagrees : AgreesWithFK t ⟨ups ++ top :: downs, ups.length⟩ s) {j : ι}
    (hside : ¬(endLink ∈ t.below j ↔ base ∈ t.below j)) (localP : Vector3 ℝ) :
    HasVelocityAt (fun x ↦ calcForwardKinematics t ⟨ups ++ top :: downs, ups.length⟩ false false
      (setJointValue s j x) endLink) localP
      (JointPath.jacobianColumn (s endLink) localP (base ∉ t.below j) (s j)) (s j).q := by
  have hend : endLink ∈ ups ++ top :: downs :=
    List.mem_append_right _ (List.mem_of_getLast? h.last)
  have hsame : setJointValue s j (s j).q = s := Function.update_eq_self j s
  have hpose : pose (calcForwardKinematics t ⟨ups ++ top :: downs, ups.length⟩ false false
      (setJointValue s j (s j).q) endLink) = pose (s endLink) := by
    rw [hsame, hagrees endLink hend]
  have hvelocity := hasVelocityAt_of_hasTwistAt
    ((h.movesWith hR hunit hagrees j endLink hend).moves hside) localP
  have hp : (calcForwardKinematics t ⟨ups ++ top :: downs, ups.length⟩ false false
      (setJointValue s j (s j).q) endLink).p = (s endLink).p := congrArg Prod.fst hpose
  have hattitude : (calcForwardKinematics t ⟨ups ++ top :: downs, ups.length⟩ false false
      (setJointValue s j (s j).q) endLink).R = (s endLink).R := congrArg Prod.snd hpose
  rw [hp, hattitude] at hvelocity
  rw [jacobianColumn_eq]
  exact hvelocity

/-- A joint that moves has a column that is not zero. -/
theorem jacobianColumn_ne_zero {link : Link ℝ} (hunit : UnitAxis link) (hR : IsRotation link.R)
    (hjoint : IsJoint link) (targetLink : Link ℝ) (localP : Vector3 ℝ) (isJointDownward : Bool) :
    JointPath.jacobianColumn targetLink localP isJointDownward link ≠ 0 := by
  have hne {a : Vector3 ℝ} (ha : a ⬝ᵥ a = 1) :
      (if isJointDownward then link.R *ᵥ a else -(link.R *ᵥ a)) ≠ 0 := by
    have hmul : link.R *ᵥ a ≠ 0 := fun hzero ↦ by
      rw [hR.mulVec_injective (hzero.trans (mulVec_zero _).symm), zero_dotProduct] at ha
      exact zero_ne_one ha
    split
    · exact hmul
    · exact neg_ne_zero.2 hmul
  intro hzero
  rw [JointPath.jacobianColumn] at hzero
  rcases hjoint.2 with hty | hty
  · simp only [hty] at hzero
    exact hne (hunit.1 hty) (congrArg Prod.snd hzero)
  · simp only [hty] at hzero
    exact hne (hunit.2 hty) (congrArg Prod.fst hzero)

/-- The column of a joint that is not between the base and the end is wrong. -/
theorem IsPath.not_hasVelocityAt (h : IsPath t base endLink ups top downs)
    (hR : IsRotation (s base).R) (hunit : ∀ i ∈ ups ++ top :: downs, UnitAxis (s i))
    (hagrees : AgreesWithFK t ⟨ups ++ top :: downs, ups.length⟩ s) {j : ι}
    (hj : j ∈ ups ++ top :: downs) (hjoint : IsJoint (s j))
    (hside : endLink ∈ t.below j ↔ base ∈ t.below j) (localP : Vector3 ℝ) (isJointDownward : Bool) :
    ¬HasVelocityAt (fun x ↦ calcForwardKinematics t ⟨ups ++ top :: downs, ups.length⟩ false false
      (setJointValue s j x) endLink) localP
      (JointPath.jacobianColumn (s endLink) localP isJointDownward (s j)) (s j).q := by
  have hend : endLink ∈ ups ++ top :: downs :=
    List.mem_append_right _ (List.mem_of_getLast? h.last)
  obtain ⟨ups', -, htr⟩ := h.exists_isTraverse
  have hrot := isRotation_of_agrees htr hR hunit hagrees
  have hstays := (h.movesWith hR hunit hagrees j endLink hend).stays hside
  have hp (x : ℝ) : (calcForwardKinematics t ⟨ups ++ top :: downs, ups.length⟩ false false
      (setJointValue s j x) endLink).p = (s endLink).p := congrArg Prod.fst (hstays x)
  have hattitude (x : ℝ) : (calcForwardKinematics t ⟨ups ++ top :: downs, ups.length⟩ false false
      (setJointValue s j x) endLink).R = (s endLink).R := congrArg Prod.snd (hstays x)
  rintro ⟨hlinear, hangular⟩
  simp only [hp, hattitude] at hlinear hangular
  have hfst := hlinear.unique (hasDerivAt_const _ _)
  have hsnd := (HasTwistAt.const (poseTransform (pose (s endLink))) (s j).q).eq_of_rotation
    (hrot endLink hend) hangular
  exact jacobianColumn_ne_zero (hunit j hj) (hrot j hj) hjoint _ _ _ (Prod.ext hfst hsnd)

/-- The Jacobian of the extracted joints. -/
theorem IsPath.getElem?_calcJacobian (h : IsPath t base endLink ups top downs) {path : JointPath ι}
    (hpath : path.linkPath = ⟨ups ++ top :: downs, ups.length⟩) (localP : Vector3 ℝ) :
    (path.calcJacobian s localP).length = path.joints.length ∧
      ∀ k : ℕ, (path.calcJacobian s localP)[k]? = path.joints[k]?.map fun j ↦
        JointPath.jacobianColumn (s endLink) localP (path.numUpwardJointConnections ≤ k) (s j) := by
  have hlast : path.linkPath.links.getLast? = some endLink := by
    rw [hpath, List.getLast?_append, h.last, Option.some_or]
  rw [JointPath.calcJacobian, hlast]
  exact ⟨List.length_mapIdx, fun k ↦ List.getElem?_mapIdx⟩

/-- The Jacobian is the derivative exactly when no turning link inside the path has a joint. -/
theorem IsPath.jacobianIsDerivative_iff (h : IsPath t base endLink ups top downs)
    (hR : IsRotation (s base).R) (hunit : ∀ i ∈ ups ++ top :: downs, UnitAxis (s i))
    (hagrees : AgreesWithFK t ⟨ups ++ top :: downs, ups.length⟩ s) {path : JointPath ι}
    (hpath : path.linkPath = ⟨ups ++ top :: downs, ups.length⟩) :
    JacobianIsDerivative t s endLink (path.extractJoints s) ↔
      ups = [] ∨ downs = [] ∨ ¬IsJoint (s top) := by
  set U := ups.filter fun i ↦ IsJoint (s i) with hU
  set D := downs.filter fun i ↦ IsJoint (s i) with hD
  have hlinkPath : (path.extractJoints s).linkPath = ⟨ups ++ top :: downs, ups.length⟩ := by
    rw [JointPath.linkPath_extractJoints, hpath]
  have hnumUpward : (path.extractJoints s).numUpwardJointConnections = U.length := by
    rw [JointPath.extractJoints_eq s path hpath]
  have hjoints : (path.extractJoints s).joints =
      U ++ ((if ups = [] ∨ downs = [] then [] else [top]).filter (fun i ↦ IsJoint (s i)) ++ D) := by
    rw [JointPath.extractJoints_eq s path hpath, List.filter_append, List.filter_append]
  constructor
  · intro hderiv
    by_contra! hturn
    obtain ⟨hups, hdowns, hjoint⟩ := hturn
    rw [if_neg (not_or.2 ⟨hups, hdowns⟩), List.filter_cons_of_pos (by simpa using hjoint),
      List.filter_nil, List.singleton_append] at hjoints
    have htop : (path.extractJoints s).joints[U.length]? = some top := by
      rw [hjoints, List.getElem?_append_right le_rfl, Nat.sub_self]
      rfl
    have hcolumn := (h.getElem?_calcJacobian (s := s) hlinkPath 0).2 U.length
    rw [htop, Option.map_some] at hcolumn
    have hvelocity := (hderiv 0).2 _ _ _ htop hcolumn
    rw [hlinkPath] at hvelocity
    refine h.not_hasVelocityAt hR hunit hagrees (List.mem_append_right _ List.mem_cons_self) hjoint
      (iff_of_true ?_ ?_) 0 _ hvelocity
    · exact h.descends.last_mem_below h.last List.mem_cons_self
    · exact h.base_mem_below (List.mem_append_right _ (List.mem_singleton_self top))
  · intro hcond localP
    obtain ⟨hlength, hcolumns⟩ := h.getElem?_calcJacobian (s := s) hlinkPath localP
    refine ⟨hlength, fun k j column hj hcolumn ↦ ?_⟩
    have hmid : (if ups = [] ∨ downs = [] then [] else [top]).filter (fun i ↦ IsJoint (s i)) =
        [] := by
      split
      · rfl
      · next hends =>
        have htop := (or_assoc.2 hcond).resolve_left hends
        rw [List.filter_cons_of_neg (by simpa using htop), List.filter_nil]
    rw [hmid, List.nil_append] at hjoints
    rw [hcolumns, hj, Option.map_some, hnumUpward] at hcolumn
    -- a joint of the upward part has the base below it, one of the downward part has the end
    have hside : ¬(endLink ∈ t.below j ↔ base ∈ t.below j) ∧
        decide (U.length ≤ k) = decide (base ∉ t.below j) := by
      rw [hjoints] at hj
      rcases lt_or_ge k U.length with hk | hk
      · rw [List.getElem?_append_left hk] at hj
        have hups := (List.mem_filter.1 (List.mem_of_getElem? hj)).1
        have hbase : base ∈ t.below j := h.base_mem_below (List.mem_append_left _ hups)
        exact ⟨h.apart (List.mem_append_left _ hups),
          decide_eq_decide.2 (iff_of_false (not_le.2 hk) (not_not.2 hbase))⟩
      · rw [List.getElem?_append_right hk] at hj
        have hdowns := (List.mem_filter.1 (List.mem_of_getElem? hj)).1
        exact ⟨h.apart (List.mem_append_right _ hdowns),
          decide_eq_decide.2 (iff_of_true hk (h.base_notMem hdowns))⟩
    rw [hlinkPath, ← Option.some.inj hcolumn, hside.2]
    exact h.hasVelocityAt hR hunit hagrees hside.1 localP

/-- **The Jacobian of a joint path is the derivative of its forward kinematics**, at every point of
the end link, exactly when the path does not turn at a joint: when the lowest link above both ends,
if it is neither of them, has no joint. -/
theorem find_jacobian_iff (t : LinkTree ι) (s : Store ι ℝ) (path : JointPath ι)
    (hbase : base ∈ t.links) (hend : endLink ∈ t.links) (hR : IsRotation (s base).R)
    (hunit : ∀ i ∈ (path.find t s base endLink).2.linkPath.links, UnitAxis (s i))
    (hagrees : AgreesWithFK t (path.find t s base endLink).2.linkPath s) :
    JacobianIsDerivative t s endLink (path.find t s base endLink).2 ↔
      ∀ top, IsMeet t base endLink top → top ≠ base → top ≠ endLink → ¬IsJoint (s top) := by
  obtain ⟨ups, top, downs, hfind, h⟩ := LinkPath.exists_find hbase hend
  set path' : JointPath ι := { path with linkPath := ⟨ups ++ top :: downs, ups.length⟩ } with hpath'
  have heq : (path.find t s base endLink).2 = path'.extractJoints s := by
    rw [JointPath.find, hfind, hpath']
    rfl
  rw [heq, JointPath.linkPath_extractJoints] at hunit hagrees
  rw [heq, h.jacobianIsDerivative_iff hR hunit hagrees rfl, h.turning_iff hbase]

/-! ### A body at rest -/

/-- Links that all coincide agree with forward kinematics. -/
theorem agreesWithFK_of_coincide {tr : LinkTraverse ι} (h : IsTraverse t base ups downs tr)
    (hpose : ∀ i, pose (s i) = (0, 1))
    (hjoint : ∀ i, jointRotation (s i) = 1 ∧ jointOffset (s i) = 0) :
    AgreesWithFK t tr s := by
  have hzero : ∀ i ∈ tr.links, pose (calcForwardKinematics t tr false false s i) = (0, 1) := by
    refine h.mem_induction ?_ (fun c p hcp _ _ _ ih ↦ ?_) fun p c hcd _ _ hpc ih ↦ ?_
    · rw [pose_base h, hpose]
    · rw [pose_upward h false false s hcp, ih, upwardPose, (hjoint c).1, (hjoint c).2]
      simp
    · rw [pose_downward h false false s hpc hcd, ih, downwardPose, (hjoint c).1, (hjoint c).2]
      simp
  exact fun i hi ↦ (hzero i hi).trans (hpose i).symm

/-- The joints of the fork, about the third axis. -/
noncomputable def unitFork (i : Fin 4) : Link ℝ :=
  { fork i with a := ![0, 0, 1] }

theorem unitAxis_unitFork (i : Fin 4) : UnitAxis (unitFork i) := by
  refine ⟨fun _ ↦ by simp [unitFork], fun hslide ↦ ?_⟩
  simp only [unitFork, fork] at hslide
  split at hslide <;> cases hslide

theorem agreesWithFK_unitFork {base : Fin 4} {ups downs : List (Fin 4)} {tr : LinkTraverse (Fin 4)}
    (h : IsTraverse forkTree base ups downs tr) : AgreesWithFK forkTree tr unitFork := by
  refine agreesWithFK_of_coincide h (fun i ↦ rfl) fun i ↦ ?_
  have hrodrigues : rodrigues ![0, 0, 1] (0 : ℝ) = 1 := by
    have hsin : CMath.sin (0 : ℝ) = 0 := Real.sin_zero
    have hcos : CMath.cos (0 : ℝ) = 1 := Real.cos_zero
    rw [rodrigues_eq, hsin, hcos, zero_smul, sub_self, zero_smul, add_zero, add_zero]
  rcases jointType_cases (unitFork i) with hty | hty | hty
  · rw [jointRotation, jointOffset]
    simp only [hty]
    exact ⟨hrodrigues, rfl⟩
  · simp only [unitFork, fork] at hty
    split at hty <;> cases hty
  · exact joint_of_fixed hty 0

theorem isPath_fork_turning : IsPath forkTree 2 3 [2] 1 [3] :=
  ⟨.cons_cons (by decide) (.singleton _), .cons_cons (by decide) (.singleton _), rfl, rfl,
    by decide⟩

/-- From the root to link 3, the path goes down only. -/
theorem find_jacobian_iff_fork :
    JacobianIsDerivative forkTree unitFork 3
      (JointPath.find forkTree unitFork ⟨⟨[], 0⟩, [], 0⟩ 0 3).2 := by
  obtain ⟨ups, downs, htr⟩ := JointPath.exists_isTraverse_find (t := forkTree) (s := unitFork)
    (show 0 ∈ forkTree.links by decide) (show 3 ∈ forkTree.links by decide) ⟨⟨[], 0⟩, [], 0⟩
  refine (find_jacobian_iff forkTree unitFork ⟨⟨[], 0⟩, [], 0⟩ (by decide) (by decide)
    IsRotation.one (fun i _ ↦ unitAxis_unitFork i) (agreesWithFK_unitFork htr)).2 ?_
  have hroot : ∀ top : Fin 4, 0 ∈ forkTree.below top → top = 0 := by decide
  exact fun top hmeet htop ↦ absurd (hroot top hmeet.1) htop

/-- From link 2 to link 3, the column of the joint of link 1 is not zero, but no value of that joint
moves link 3. -/
theorem not_jacobianIsDerivative_fork :
    IsRotation (unitFork 2).R ∧ (∀ i, UnitAxis (unitFork i)) ∧
      AgreesWithFK forkTree (JointPath.find forkTree unitFork ⟨⟨[], 0⟩, [], 0⟩ 2 3).2.linkPath
        unitFork ∧
      ¬JacobianIsDerivative forkTree unitFork 3
        (JointPath.find forkTree unitFork ⟨⟨[], 0⟩, [], 0⟩ 2 3).2 := by
  have hfind : LinkPath.find forkTree 2 3 = (true, ⟨[2, 1, 3], 1⟩) := by decide
  have heq : (JointPath.find forkTree unitFork ⟨⟨[], 0⟩, [], 0⟩ 2 3).2 =
      JointPath.extractJoints unitFork ⟨⟨[2, 1, 3], 1⟩, [], 0⟩ := by
    rw [JointPath.find, hfind]
    rfl
  obtain ⟨ups', -, htr⟩ := isPath_fork_turning.exists_isTraverse
  have hagrees := agreesWithFK_unitFork htr
  rw [heq, JointPath.linkPath_extractJoints]
  refine ⟨IsRotation.one, unitAxis_unitFork, hagrees, fun hderiv ↦ ?_⟩
  rcases (isPath_fork_turning.jacobianIsDerivative_iff IsRotation.one
    (fun i _ ↦ unitAxis_unitFork i) hagrees rfl).1 hderiv with hups | hdowns | hfixed
  · cases hups
  · cases hdowns
  · exact hfixed (by simp [unitFork, fork, IsJoint])

end Jacobian

end OpenHRP
