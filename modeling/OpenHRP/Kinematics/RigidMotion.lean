import OpenHRP.Model.ForwardKinematics

/-!
# Velocities and accelerations of forward kinematics

A joint of a rigid multibody moves its child along with its parent, plus the motion of the joint
itself; `RigidJoint` states this for velocities and, differentiated once, for accelerations. The
walk of `calcForwardKinematics` gets all angular quantities right. Of the linear ones it loses the
motion of the arm from the parent's origin to the child's in some of its cases:

* slide and fixed joints transport the velocity without `w × arm`;
* fixed joints transport the acceleration without any arm term;
* going up a rotational joint, the acceleration is transported with the angular motion of the child
  in place of the parent's.

So the equations hold on a traverse exactly when these terms vanish (`rigidJoint_iff`). The
condition is on the angular motion of the links, which the angular motion of the base and the joint
rates determine on their own (`Transports`).
-/

open Matrix

namespace OpenHRP

variable {ι K : Type*} [Field K]

/-! ### The motion of a rigid multibody -/

/-- The linear and the angular motion a joint adds at the rate `x`, over a parent of the
attitude `R`. -/
def jointTwist (R : Matrix33 K) (child : Link K) (x : K) : Vector3 K × Vector3 K :=
  match child.jointType with
  | .rotationalJoint => (0, x • (R *ᵥ child.a))
  | .slideJoint => (x • (R *ᵥ child.d), 0)
  | .fixedJoint | .freeJoint => (0, 0)

/-- The child `C` moves with the parent `P` and its joint. The equations for `dv` and `dw` are the
time derivatives of those for `v` and `w`: the arm `r` changes by `C.v - P.v`, and the joint axes
turn with the parent. -/
structure RigidJoint (P C : Link K) : Prop where
  v : C.v = P.v + P.w ⨯₃ (C.p - P.p) + (jointTwist P.R C C.dq).1
  w : C.w = P.w + (jointTwist P.R C C.dq).2
  dv : C.dv = P.dv + P.dw ⨯₃ (C.p - P.p) +
    P.w ⨯₃ (P.w ⨯₃ (C.p - P.p) + (jointTwist P.R C C.dq).1) +
    P.w ⨯₃ (jointTwist P.R C C.dq).1 + (jointTwist P.R C C.ddq).1
  dw : C.dw = P.dw + P.w ⨯₃ (jointTwist P.R C C.dq).2 + (jointTwist P.R C C.ddq).2

/-! ### Angular motion -/

/-- Attitude, angular velocity and angular acceleration. -/
@[ext]
structure AngularMotion (K : Type*) where
  R : Matrix33 K
  w : Vector3 K
  dw : Vector3 K

/-- The angular motion of a link. -/
def angularMotion (link : Link K) : AngularMotion K :=
  ⟨link.R, link.w, link.dw⟩

namespace AngularMotion

/-- The acceleration of the end of an arm that turns with the motion. -/
def armAccel (m : AngularMotion K) (r : Vector3 K) : Vector3 K :=
  cross m.dw r + cross m.w (cross m.w r)

variable [CMath K]

/-- The angular motion of a child, from that of its parent. -/
def ofParent (P : AngularMotion K) (child : Link K) : AngularMotion K :=
  let s := (jointTwist P.R child child.dq).2
  ⟨P.R * jointRotation child, P.w + s,
    P.dw + cross P.w s + (jointTwist P.R child child.ddq).2⟩

/-- The angular motion of a parent, from that of its child. -/
def ofChild (C : AngularMotion K) (child : Link K) : AngularMotion K :=
  let R := C.R * (jointRotation child)ᵀ
  let s := (jointTwist R child child.dq).2
  let w := C.w - s
  ⟨R, w, C.dw - cross w s - (jointTwist R child child.ddq).2⟩

end AngularMotion

/-- The terms of the arm that a connection loses vanish, for the angular motions `P` and `C` of
parent and child. -/
def ArmAtRest (isUpward : Prop) (P C : AngularMotion K) (child : Link K) : Prop :=
  let r := P.R *ᵥ jointOffset child
  match child.jointType with
  | .rotationalJoint => isUpward → C.armAccel r = P.armAccel r
  | .slideJoint => cross P.w r = 0
  | .fixedJoint | .freeJoint => cross P.w r = 0 ∧ cross P.dw r = 0

/-! ### One connection -/

section Rates

variable {R : Matrix33 K} {child : Link K} (x : K)

theorem jointTwist_rotational (h : child.jointType = .rotationalJoint) :
    jointTwist R child x = (0, x • (R *ᵥ child.a)) := by
  rw [jointTwist, h]

theorem jointTwist_slide (h : child.jointType = .slideJoint) :
    jointTwist R child x = (x • (R *ᵥ child.d), 0) := by
  rw [jointTwist, h]

theorem jointTwist_fixed (h : child.jointType = .fixedJoint ∨ child.jointType = .freeJoint) :
    jointTwist R child x = (0, 0) := by
  rcases h with h | h <;> rw [jointTwist, h]

end Rates

variable [CMath K]

/-- Going down a rotational joint, the walk transports the whole motion. -/
theorem rigidJoint_downwardRotational (P L : Link K) (h : L.jointType = .rotationalJoint) :
    RigidJoint P (downwardRotational true true P L) := by
  set C := downwardRotational true true P L with hC
  have harm : C.p - P.p = P.R *ᵥ L.b := add_sub_cancel_left _ _
  have htwist : ∀ x, jointTwist P.R C x = (0, x • (P.R *ᵥ L.a)) := fun x ↦
    jointTwist_rotational x h
  refine ⟨?_, ?_, ?_, ?_⟩
  · rw [harm, htwist, add_zero]
    rfl
  · rw [htwist]
    rfl
  · rw [harm, htwist, htwist, add_zero, map_zero, add_zero, add_zero]
    show P.dv + P.w ⨯₃ (P.w ⨯₃ (P.R *ᵥ L.b)) + P.dw ⨯₃ (P.R *ᵥ L.b) = _
    abel
  · rw [htwist, htwist, map_smul]
    rfl

section

omit [CMath K]

theorem rigidJoint_slide_iff {P C : Link K} {r : Vector3 K} (h : C.jointType = .slideJoint)
    (harm : C.p - P.p = r) (hv : C.v = P.v + C.dq • (P.R *ᵥ C.d)) (hw : C.w = P.w)
    (hdv : C.dv = P.dv + P.w ⨯₃ (P.w ⨯₃ r) + P.dw ⨯₃ r + (2 * C.dq) • (P.w ⨯₃ (P.R *ᵥ C.d)) +
      C.ddq • (P.R *ᵥ C.d)) (hdw : C.dw = P.dw) : RigidJoint P C ↔ P.w ⨯₃ r = 0 := by
  have htwist : ∀ x, jointTwist P.R C x = (x • (P.R *ᵥ C.d), 0) := fun x ↦ jointTwist_slide x h
  constructor
  · intro hrigid
    have hlaw := hrigid.v
    rw [harm, htwist, hv, add_right_comm] at hlaw
    exact left_eq_add.1 hlaw
  · intro hzero
    refine ⟨?_, ?_, ?_, ?_⟩
    · rw [harm, htwist, hzero, add_zero]
      exact hv
    · rw [htwist, add_zero, hw]
    · rw [harm, htwist, htwist, map_add, map_smul, hdv]
      module
    · rw [htwist, htwist, map_zero, add_zero, add_zero, hdw]

/-- Going down a slide joint, the walk loses `w × arm` from the velocity. -/
theorem rigidJoint_downwardSlide (P L : Link K) (h : L.jointType = .slideJoint) :
    RigidJoint P (downwardSlide true true P L) ↔
      P.w ⨯₃ (P.R *ᵥ (L.b + L.q • L.d)) = 0 :=
  rigidJoint_slide_iff h (add_sub_cancel_left _ _) rfl rfl rfl rfl

/-- Across a fixed joint the walk loses every term of the arm. -/
theorem rigidJoint_fixed {P C : Link K}
    (hfixed : C.jointType = .fixedJoint ∨ C.jointType = .freeJoint) (hv : C.v = P.v)
    (hw : C.w = P.w) (hdv : C.dv = P.dv) (hdw : C.dw = P.dw) :
    RigidJoint P C ↔ P.w ⨯₃ (C.p - P.p) = 0 ∧ P.dw ⨯₃ (C.p - P.p) = 0 := by
  have htwist : ∀ x, jointTwist P.R C x = (0, 0) := fun x ↦ jointTwist_fixed x hfixed
  constructor
  · intro hrigid
    have hvlaw := hrigid.v
    rw [htwist, hv, add_zero] at hvlaw
    have hw0 : P.w ⨯₃ (C.p - P.p) = 0 := left_eq_add.1 hvlaw
    have hdvlaw := hrigid.dv
    simp only [htwist, hdv, hw0, add_zero, map_zero] at hdvlaw
    exact ⟨hw0, left_eq_add.1 hdvlaw⟩
  · rintro ⟨hw0, hdw0⟩
    refine ⟨?_, ?_, ?_, ?_⟩
    · rw [htwist, hv, hw0, add_zero, add_zero]
    · rw [htwist, hw, add_zero]
    · simp only [htwist, hdv, hw0, hdw0, add_zero, map_zero]
    · rw [htwist, htwist, hdw, map_zero, add_zero, add_zero]

end

/-- Going up a rotational joint, the walk takes the acceleration of the arm from the child. -/
theorem rigidJoint_upwardRotational (C L : Link K) (h : C.jointType = .rotationalJoint) :
    let P := upwardRotational true true C L
    RigidJoint P C ↔
      (angularMotion C).armAccel (P.R *ᵥ C.b) = (angularMotion P).armAccel (P.R *ᵥ C.b) := by
  intro P
  set r := P.R *ᵥ C.b with hr
  set n := P.R *ᵥ C.a with hn
  have harm : C.p - P.p = r := sub_sub_cancel _ _
  have htwist : ∀ x, jointTwist P.R C x = (0, x • n) := fun x ↦ jointTwist_rotational x h
  have hw : P.w = C.w - C.dq • n := rfl
  have hdw : P.dw = C.dw - C.dq • (C.w ⨯₃ n) - C.ddq • n := rfl
  have hv : P.v = C.v - P.w ⨯₃ r := rfl
  have hdv : P.dv = C.dv - C.w ⨯₃ (C.w ⨯₃ r) - C.dw ⨯₃ r := rfl
  -- the child and the parent turn the axis alike
  have hturn : P.w ⨯₃ n = C.w ⨯₃ n := by
    rw [hw, map_sub, LinearMap.sub_apply, map_smul, LinearMap.smul_apply, cross_self, smul_zero,
      sub_zero]
  have hiff : C.dv = P.dv + P.dw ⨯₃ r + P.w ⨯₃ (P.w ⨯₃ r) ↔
      (angularMotion C).armAccel r = (angularMotion P).armAccel r := by
    have hC : C.dv = P.dv + (angularMotion C).armAccel r := by
      rw [hdv]
      show C.dv = C.dv - C.w ⨯₃ (C.w ⨯₃ r) - C.dw ⨯₃ r + (C.dw ⨯₃ r + C.w ⨯₃ (C.w ⨯₃ r))
      abel
    rw [hC, add_assoc]
    exact add_right_inj _
  rw [← hiff]
  constructor
  · intro hrigid
    have hlaw := hrigid.dv
    rwa [harm, htwist, htwist, add_zero, map_zero, add_zero, add_zero] at hlaw
  · intro hlaw
    refine ⟨?_, ?_, ?_, ?_⟩
    · rw [harm, htwist, hv, add_zero, sub_add_cancel]
    · rw [htwist, hw]
      exact (sub_add_cancel _ _).symm
    · rwa [harm, htwist, htwist, add_zero, map_zero, add_zero, add_zero]
    · rw [htwist, htwist, map_smul, hturn, hdw]
      show C.dw = C.dw - C.dq • (C.w ⨯₃ n) - C.ddq • n + C.dq • (C.w ⨯₃ n) + C.ddq • n
      abel

omit [CMath K] in
/-- Going up a slide joint, the walk loses `w × arm` from the velocity. -/
theorem rigidJoint_upwardSlide (C L : Link K) (h : C.jointType = .slideJoint) :
    let P := upwardSlide true true C L
    RigidJoint P C ↔ P.w ⨯₃ (P.R *ᵥ (C.b + C.q • C.d)) = 0 := by
  intro P
  set r := P.R *ᵥ (C.b + C.q • C.d) with hr
  set D := P.R *ᵥ C.d with hD
  refine rigidJoint_slide_iff h (sub_sub_cancel _ _) (sub_add_cancel _ _).symm rfl ?_ rfl
  show C.dv = C.dv - C.w ⨯₃ (C.w ⨯₃ r) - C.dw ⨯₃ r - (2 * C.dq) • (C.w ⨯₃ D) - C.ddq • D +
    C.w ⨯₃ (C.w ⨯₃ r) + C.dw ⨯₃ r + (2 * C.dq) • (C.w ⨯₃ D) + C.ddq • D
  abel

/-- **Going down**, the child moves with its parent exactly when the arm is at rest. -/
theorem rigidJoint_calcDownward (P L : Link K) :
    let C := calcDownward true true P L
    RigidJoint P C ↔ ArmAtRest False (angularMotion P) (angularMotion C) L := by
  intro C
  have hpose := (calcDownward_pose true true P L).2
  have harm : C.p - P.p = (angularMotion P).R *ᵥ jointOffset L := by
    rw [hpose, add_sub_cancel_left]
    rfl
  have hfixed : L.jointType = .fixedJoint ∨ L.jointType = .freeJoint →
      C = downwardFixed true true P L := by
    rintro (h | h) <;> exact (by rw [calcDownward, h] : calcDownward true true P L = _)
  rw [ArmAtRest]
  cases h : L.jointType with
  | rotationalJoint =>
    have hC : C = downwardRotational true true P L := by
      exact (by rw [calcDownward, h] : calcDownward true true P L = _)
    exact iff_of_true (hC ▸ rigidJoint_downwardRotational P L h) False.elim
  | slideJoint =>
    have hC : C = downwardSlide true true P L := by
      exact (by rw [calcDownward, h] : calcDownward true true P L = _)
    have hoffset : jointOffset L = L.b + L.q • L.d := by rw [jointOffset, h]
    rw [hC, rigidJoint_downwardSlide P L h, hoffset]
    rfl
  | fixedJoint =>
    rw [← harm, hfixed (.inl h)]
    exact rigidJoint_fixed (.inl h) rfl rfl rfl rfl
  | freeJoint =>
    rw [← harm, hfixed (.inr h)]
    exact rigidJoint_fixed (.inr h) rfl rfl rfl rfl

/-- **Going up**, the child moves with its parent exactly when the arm is at rest. -/
theorem rigidJoint_calcUpward (C L : Link K) :
    let P := calcUpward true true C L
    RigidJoint P C ↔ ArmAtRest True (angularMotion P) (angularMotion C) C := by
  intro P
  obtain ⟨hR, hpose⟩ := calcUpward_pose true true C L
  have harm : C.p - P.p = (angularMotion P).R *ᵥ jointOffset C := by
    rw [hpose, sub_sub_cancel, ← hR]
    rfl
  have hfixed : C.jointType = .fixedJoint ∨ C.jointType = .freeJoint →
      P = upwardFixed true true C L := by
    rintro (h | h) <;> exact (by rw [calcUpward, h] : calcUpward true true C L = _)
  rw [ArmAtRest]
  cases h : C.jointType with
  | rotationalJoint =>
    have hP : P = upwardRotational true true C L := by
      exact (by rw [calcUpward, h] : calcUpward true true C L = _)
    have hoffset : jointOffset C = C.b := by rw [jointOffset, h]
    rw [hP, hoffset]
    exact (rigidJoint_upwardRotational C L h).trans (forall_const True).symm
  | slideJoint =>
    have hP : P = upwardSlide true true C L := by
      exact (by rw [calcUpward, h] : calcUpward true true C L = _)
    have hoffset : jointOffset C = C.b + C.q • C.d := by rw [jointOffset, h]
    rw [hP, hoffset]
    exact rigidJoint_upwardSlide C L h
  | fixedJoint =>
    rw [← harm, hfixed (.inl h)]
    exact rigidJoint_fixed (.inl h) rfl rfl rfl rfl
  | freeJoint =>
    rw [← harm, hfixed (.inr h)]
    exact rigidJoint_fixed (.inr h) rfl rfl rfl rfl

theorem angularMotion_calcDownward (P L : Link K) :
    angularMotion (calcDownward true true P L) = (angularMotion P).ofParent L := by
  rw [AngularMotion.ofParent, cross, calcDownward, jointRotation]
  cases h : L.jointType with
  | rotationalJoint =>
    rw [jointTwist_rotational _ h, jointTwist_rotational _ h, map_smul]
    rfl
  | slideJoint =>
    rw [jointTwist_slide _ h, jointTwist_slide _ h, mul_one, map_zero, add_zero, add_zero,
      add_zero]
    rfl
  | fixedJoint =>
    rw [jointTwist_fixed _ (.inl h), jointTwist_fixed _ (.inl h), mul_one, map_zero, add_zero,
      add_zero, add_zero]
    rfl
  | freeJoint =>
    rw [jointTwist_fixed _ (.inr h), jointTwist_fixed _ (.inr h), mul_one, map_zero, add_zero,
      add_zero, add_zero]
    rfl

theorem angularMotion_calcUpward (C L : Link K) :
    angularMotion (calcUpward true true C L) = (angularMotion C).ofChild C := by
  rw [AngularMotion.ofChild, cross, calcUpward, jointRotation]
  cases h : C.jointType with
  | rotationalJoint =>
    rw [jointTwist_rotational _ h, jointTwist_rotational _ h]
    refine AngularMotion.ext rfl rfl ?_
    set n := (C.R * (rodrigues C.a C.q)ᵀ) *ᵥ C.a
    show C.dw - C.dq • (C.w ⨯₃ n) - C.ddq • n =
      C.dw - (C.w - C.dq • n) ⨯₃ (C.dq • n) - C.ddq • n
    rw [map_smul, map_sub, LinearMap.sub_apply, map_smul, LinearMap.smul_apply, cross_self,
      smul_zero, sub_zero]
  | slideJoint =>
    rw [jointTwist_slide _ h, jointTwist_slide _ h, transpose_one, mul_one, map_zero, sub_zero,
      sub_zero, sub_zero]
    rfl
  | fixedJoint =>
    rw [jointTwist_fixed _ (.inl h), jointTwist_fixed _ (.inl h), transpose_one, mul_one,
      map_zero, sub_zero, sub_zero, sub_zero]
    rfl
  | freeJoint =>
    rw [jointTwist_fixed _ (.inr h), jointTwist_fixed _ (.inr h), transpose_one, mul_one,
      map_zero, sub_zero, sub_zero, sub_zero]
    rfl

/-! ### The whole traverse -/

section Traverse

variable [DecidableEq ι] (t : LinkTree ι) (base : ι) (ups downs : List ι) (s : Store ι K)

/-- `M` is the angular motion of the links of a traverse: that of the base, transported along the
traverse by the joint rates. -/
structure Transports (M : ι → AngularMotion K) : Prop where
  start : M base = angularMotion (s base)
  up : ∀ c p, (∃ l l', base :: ups = l ++ c :: p :: l') → M p = (M c).ofChild (s c)
  down : ∀ p, ∀ c ∈ downs, t.parent c = some p → M c = (M p).ofParent (s c)

variable {t base ups downs s} {tr : LinkTraverse ι}

section

omit [CMath K]

theorem rigidJoint_dropAxis (P C : Link K) :
    RigidJoint (dropAxis P) (dropAxis C) ↔ RigidJoint P C :=
  ⟨fun h ↦ ⟨h.v, h.w, h.dv, h.dw⟩, fun h ↦ ⟨h.v, h.w, h.dv, h.dw⟩⟩

theorem armAtRest_constants (isUpward : Prop) (P C : AngularMotion K) (child : Link K) :
    ArmAtRest isUpward P C (constants child) = ArmAtRest isUpward P C child :=
  rfl

end

theorem ofChild_constants (C : AngularMotion K) (child : Link K) :
    C.ofChild (constants child) = C.ofChild child :=
  rfl

/-- The walk transports the angular motion. -/
theorem transports_calcForwardKinematics (h : IsTraverse t base ups downs tr) :
    Transports t base ups downs s
      fun i ↦ angularMotion (calcForwardKinematics t tr true true s i) := by
  set s' := calcForwardKinematics t tr true true s with hs'
  have hconst : ∀ i, constants (s' i) = constants (s i) :=
    constants_calcForwardKinematics h true true s
  refine ⟨?_, fun c p ⟨l, l', hl⟩ ↦ ?_, fun p c hc hpc ↦ ?_⟩
  · exact (congrArg angularMotion (calcForwardKinematics_base h true true s) :)
  · have he := List.mem_append_left (downConnections t downs) (mem_upConnections hl)
    have heq := congrArg angularMotion (calcForwardKinematics_connection h true true s he)
    calc angularMotion (s' p)
        = angularMotion (calcUpward true true (dropAxis (s' c)) (dropAxis (s p))) := heq
      _ = (angularMotion (s' c)).ofChild (s' c) := angularMotion_calcUpward _ _
      _ = (angularMotion (s' c)).ofChild (s c) := by
          rw [← ofChild_constants, hconst, ofChild_constants]
  · have he := List.mem_append_right (upConnections base ups) (mem_downConnections hpc hc)
    have heq := congrArg angularMotion (calcForwardKinematics_connection h true true s he)
    calc angularMotion (s' c)
        = angularMotion (calcDownward true true (dropAxis (s' p)) (dropAxis (s c))) := heq
      _ = (angularMotion (s' p)).ofParent (s c) := angularMotion_calcDownward _ _

/-- There is only one angular motion of a traverse. -/
theorem Transports.unique (h : IsTraverse t base ups downs tr) {M M' : ι → AngularMotion K}
    (hM : Transports t base ups downs s M) (hM' : Transports t base ups downs s M') :
    ∀ i ∈ tr.links, M i = M' i := by
  refine h.induction (hM.start.trans hM'.start.symm) (fun c p hcp ih ↦ ?_) fun p c hc hpc ih ↦ ?_
  · rw [hM.up c p hcp, hM'.up c p hcp, ih]
  · rw [hM.down p c hc hpc, hM'.down p c hc hpc, ih]

/-- A child on a traverse moves with its parent exactly when its arm is at rest. -/
theorem rigidJoint_iff_armAtRest (h : IsTraverse t base ups downs tr) {p c : ι}
    (hpc : t.parent c = some p) (hp : p ∈ tr.links) (hc : c ∈ tr.links) :
    let s' := calcForwardKinematics t tr true true s
    RigidJoint (s' p) (s' c) ↔
      ArmAtRest (c ∈ base :: ups) (angularMotion (s' p)) (angularMotion (s' c)) (s c) := by
  intro s'
  have hconst : constants (s' c) = constants (s c) :=
    constants_calcForwardKinematics h true true s c
  rcases h.neighbours hpc hp hc with ⟨l, l', hl⟩ | hdown
  · have he := List.mem_append_left (downConnections t downs) (mem_upConnections hl)
    have heq : dropAxis (s' p) =
        dropAxis (calcUpward true true (dropAxis (s' c)) (dropAxis (s p))) :=
      calcForwardKinematics_connection h true true s he
    have hup : (c ∈ base :: ups) = True := eq_true (by rw [hl]; simp)
    have hmotion : angularMotion (s' p) =
        angularMotion (calcUpward true true (dropAxis (s' c)) (dropAxis (s p))) :=
      (congrArg angularMotion heq :)
    rw [hup, hmotion, ← armAtRest_constants, ← hconst, armAtRest_constants,
      ← rigidJoint_dropAxis, heq]
    exact (rigidJoint_dropAxis _ (dropAxis (s' c))).trans (rigidJoint_calcUpward _ _)
  · have he := List.mem_append_right (upConnections base ups) (mem_downConnections hpc hdown)
    have heq : dropAxis (s' c) =
        dropAxis (calcDownward true true (dropAxis (s' p)) (dropAxis (s c))) :=
      calcForwardKinematics_connection h true true s he
    have hnotup : (c ∈ base :: ups) = False := eq_false (h.descends.notMem hdown)
    have hmotion : angularMotion (s' c) =
        angularMotion (calcDownward true true (dropAxis (s' p)) (dropAxis (s c))) :=
      (congrArg angularMotion heq :)
    rw [hnotup, hmotion, ← rigidJoint_dropAxis, heq]
    exact (rigidJoint_dropAxis (dropAxis (s' p)) _).trans (rigidJoint_calcDownward _ _)

/-- **When forward kinematics propagates rigid motion**: exactly when, for the angular motion of the
links on the traverse, the arm terms that the walk loses vanish at every joint. -/
theorem rigidJoint_iff (h : IsTraverse t base ups downs tr) :
    (∀ p c, t.parent c = some p → p ∈ tr.links → c ∈ tr.links →
      RigidJoint (calcForwardKinematics t tr true true s p)
        (calcForwardKinematics t tr true true s c)) ↔
    ∀ M, Transports t base ups downs s M →
      ∀ p c, t.parent c = some p → p ∈ tr.links → c ∈ tr.links →
        ArmAtRest (c ∈ base :: ups) (M p) (M c) (s c) := by
  have hwalk := transports_calcForwardKinematics (s := s) h
  constructor
  · intro hrigid M hM p c hpc hp hc
    rw [hM.unique h hwalk p hp, hM.unique h hwalk c hc]
    exact (rigidJoint_iff_armAtRest h hpc hp hc).1 (hrigid p c hpc hp hc)
  · intro hrest p c hpc hp hc
    exact (rigidJoint_iff_armAtRest h hpc hp hc).2 (hrest _ hwalk p c hpc hp hc)

/-- A base that turns about the axis `z`, with a plate fixed to it at a distance. -/
def turntable (i : Fin 2) : Link ℚ :=
  if i = 0 then { Link.blank with jointType := .freeJoint, w := ![0, 0, 1] }
  else { Link.blank with b := ![1, 0, 0] }

theorem rigidJoint_iff_turntable :
    let tr := LinkTraverse.find oneJointTree 0 false true
    let s' := calcForwardKinematics oneJointTree tr true true turntable
    (∀ p c, oneJointTree.parent c = some p → p ∈ tr.links → c ∈ tr.links →
      RigidJoint (s' p) (s' c)) ↔
    ∀ M, Transports oneJointTree 0 [] [1] turntable M →
      ∀ p c, oneJointTree.parent c = some p → p ∈ tr.links → c ∈ tr.links →
        ArmAtRest (c ∈ [0]) (M p) (M c) (turntable c) :=
  rigidJoint_iff ⟨by decide, List.isChain_singleton _, ⟨0, by simp, by decide⟩, by simp, trivial⟩

/-- The plate turns with the base, but the walk leaves it without velocity. -/
theorem not_rigidJoint_turntable :
    let tr := LinkTraverse.find oneJointTree 0 false true
    let s' := calcForwardKinematics oneJointTree tr true true turntable
    ¬∀ p c, oneJointTree.parent c = some p → p ∈ tr.links → c ∈ tr.links →
      RigidJoint (s' p) (s' c) := by
  intro tr s' h
  have hv := (h 0 1 (by decide) (by decide) (by decide)).v
  revert hv
  decide +kernel

end Traverse

end OpenHRP
