import OpenHRP.Model.ForwardKinematics

/-!
# Computing poses from another link

Forward kinematics can start at any link. The upward formulas invert the downward ones when the
joint rotations are orthogonal, so after a walk every child is where its joint puts it relative to
its parent, whichever of the two was computed from the other (`isPlaced_calcForwardKinematics`).
Poses are then fixed by that of one link, and walking again from another link changes none of them
(`calcForwardKinematics_reroot`).
-/

open Matrix

namespace OpenHRP

variable {ι K : Type*} [Field K] [CMath K]

/-- The child `C` is where its joint puts it relative to its parent `P`. -/
structure IsPlaced (P C : Link K) : Prop where
  R : C.R = P.R * jointRotation C
  p : C.p = P.p + P.R *ᵥ jointOffset C

/-- The pose of a link. -/
def pose (link : Link K) : Vector3 K × Matrix33 K :=
  (link.p, link.R)

/-- The pose of `C` as seen from `P`. -/
def relativePose (P C : Link K) : Vector3 K × Matrix33 K :=
  (P.Rᵀ *ᵥ (C.p - P.p), P.Rᵀ * C.R)

theorem jointRotation_constants (link : Link K) :
    jointRotation (constants link) = jointRotation link :=
  rfl

omit [CMath K] in
theorem jointOffset_constants (link : Link K) : jointOffset (constants link) = jointOffset link :=
  rfl

/-- Equal constants give equal joint rotations and offsets. -/
theorem joint_eq_of_constants {link link' : Link K} (h : constants link = constants link') :
    jointRotation link = jointRotation link' ∧ jointOffset link = jointOffset link' := by
  rw [← jointRotation_constants, ← jointOffset_constants, h, jointRotation_constants,
    jointOffset_constants]
  exact ⟨rfl, rfl⟩

section Walk

variable [DecidableEq ι] {t : LinkTree ι} {base : ι} {ups downs : List ι} {tr : LinkTraverse ι}

/-- After a walk every child is where its joint puts it. -/
theorem isPlaced_calcForwardKinematics (h : IsTraverse t base ups downs tr) (v a : Bool)
    (s : Store ι K) (hrot : ∀ i ∈ t.links, (jointRotation (s i))ᵀ * jointRotation (s i) = 1)
    {p c : ι} (hpc : t.parent c = some p) (hp : p ∈ tr.links) (hc : c ∈ tr.links) :
    IsPlaced (calcForwardKinematics t tr v a s p) (calcForwardKinematics t tr v a s c) := by
  set s' := calcForwardKinematics t tr v a s with hs'
  have hjoint := joint_eq_of_constants (constants_calcForwardKinematics h v a s c)
  rcases h.exists_connection hpc hp hc with he | he
  · have heq : dropAxis (s' p) =
        dropAxis (calcUpward v a (dropAxis (s' c)) (dropAxis (s p))) :=
      calcForwardKinematics_connection h v a s he
    obtain ⟨hR, hpos⟩ := calcUpward_pose v a (dropAxis (s' c)) (dropAxis (s p))
    have hR' : (s' p).R = (s' c).R * (jointRotation (s' c))ᵀ :=
      (congrArg Link.R heq :).trans hR
    have hp' : (s' p).p = (s' c).p - (s' p).R *ᵥ jointOffset (s' c) := by
      rw [hR']
      exact (congrArg Link.p heq :).trans hpos
    refine ⟨?_, ?_⟩
    · rw [hR', Matrix.mul_assoc, hjoint.1, hrot c (t.parent_mem hpc).2, mul_one]
    · rw [hp', sub_add_cancel]
  · have heq : dropAxis (s' c) =
        dropAxis (calcDownward v a (dropAxis (s' p)) (dropAxis (s c))) :=
      calcForwardKinematics_connection h v a s he
    obtain ⟨hR, hpos⟩ := calcDownward_pose v a (dropAxis (s' p)) (dropAxis (s c))
    refine ⟨?_, ?_⟩
    · rw [hjoint.1]
      exact (congrArg Link.R heq :).trans hR
    · rw [hjoint.2]
      exact (congrArg Link.p heq :).trans hpos

end Walk

/-! ### Placed links -/

/-- Moving both links of a joint: the child is where it was if and only if its parent is. -/
theorem IsPlaced.pose_iff {P C P' C' : Link K} (h : IsPlaced P C) (h' : IsPlaced P' C')
    (hconst : constants C = constants C') (hrot : (jointRotation C)ᵀ * jointRotation C = 1) :
    pose C = pose C' ↔ pose P = pose P' := by
  obtain ⟨hrotation, hoffset⟩ := joint_eq_of_constants hconst
  have hrot' : jointRotation C * (jointRotation C)ᵀ = 1 := mul_eq_one_comm.1 hrot
  constructor
  · intro hpose
    have hR : C.R = C'.R := congrArg Prod.snd hpose
    have hp : C.p = C'.p := congrArg Prod.fst hpose
    have hPR : P.R = P'.R := by
      calc P.R = C.R * (jointRotation C)ᵀ := by rw [h.R, Matrix.mul_assoc, hrot', mul_one]
        _ = C'.R * (jointRotation C)ᵀ := by rw [hR]
        _ = P'.R := by rw [h'.R, hrotation.symm, Matrix.mul_assoc, hrot', mul_one]
    have hPp : P.p = P'.p := by
      rw [h.p, h'.p, hPR, hoffset] at hp
      exact add_right_cancel hp
    exact Prod.ext hPp hPR
  · intro hpose
    have hR : P.R = P'.R := congrArg Prod.snd hpose
    have hp : P.p = P'.p := congrArg Prod.fst hpose
    refine Prod.ext ?_ ?_
    · show C.p = C'.p
      rw [h.p, h'.p, hR, hp, hoffset]
    · show C.R = C'.R
      rw [h.R, h'.R, hR, hrotation]

/-- The attitude of a child is orthogonal if and only if that of its parent is. -/
theorem IsPlaced.orthogonal_iff {P C : Link K} (h : IsPlaced P C)
    (hrot : (jointRotation C)ᵀ * jointRotation C = 1) : C.Rᵀ * C.R = 1 ↔ P.Rᵀ * P.R = 1 := by
  have hrot' : jointRotation C * (jointRotation C)ᵀ = 1 := mul_eq_one_comm.1 hrot
  have hC : C.Rᵀ * C.R = (jointRotation C)ᵀ * (P.Rᵀ * P.R) * jointRotation C := by
    rw [h.R, transpose_mul]
    simp only [Matrix.mul_assoc]
  constructor
  · intro hone
    calc P.Rᵀ * P.R
        = jointRotation C * (C.Rᵀ * C.R) * (jointRotation C)ᵀ := by
          rw [hC]
          simp only [← Matrix.mul_assoc, hrot', one_mul]
          rw [Matrix.mul_assoc, hrot', mul_one]
      _ = 1 := by rw [hone, mul_one, hrot']
  · intro hone
    rw [hC, hone, mul_one, hrot]

/-- The pose of a child as seen from any link follows from that of its parent. -/
theorem IsPlaced.relativePose {P C : Link K} (h : IsPlaced P C) (O : Link K) :
    OpenHRP.relativePose O C = ((OpenHRP.relativePose O P).1 +
      (OpenHRP.relativePose O P).2 *ᵥ jointOffset C,
      (OpenHRP.relativePose O P).2 * jointRotation C) := by
  refine Prod.ext ?_ ?_
  · show O.Rᵀ *ᵥ (C.p - O.p) = O.Rᵀ *ᵥ (P.p - O.p) + (O.Rᵀ * P.R) *ᵥ jointOffset C
    rw [h.p, ← mulVec_mulVec, ← mulVec_add]
    exact congrArg _ (by abel)
  · show O.Rᵀ * C.R = O.Rᵀ * P.R * jointRotation C
    rw [h.R, Matrix.mul_assoc]

omit [CMath K] in
/-- Poses seen from one link give the poses links see of each other. -/
theorem relativePose_eq {O : Link K} (hO : O.Rᵀ * O.R = 1) (i j : Link K) :
    relativePose i j =
      ((relativePose O i).2ᵀ *ᵥ ((relativePose O j).1 - (relativePose O i).1),
        (relativePose O i).2ᵀ * (relativePose O j).2) := by
  have hO' : O.R * O.Rᵀ = 1 := mul_eq_one_comm.1 hO
  have hpull : (O.Rᵀ * i.R)ᵀ * O.Rᵀ = i.Rᵀ := by
    rw [transpose_mul, transpose_transpose, Matrix.mul_assoc, hO', mul_one]
  refine Prod.ext ?_ ?_
  · show i.Rᵀ *ᵥ (j.p - i.p) =
      (O.Rᵀ * i.R)ᵀ *ᵥ (O.Rᵀ *ᵥ (j.p - O.p) - O.Rᵀ *ᵥ (i.p - O.p))
    rw [← mulVec_sub, mulVec_mulVec, hpull, sub_sub_sub_cancel_right]
  · show i.Rᵀ * j.R = (O.Rᵀ * i.R)ᵀ * (O.Rᵀ * j.R)
    rw [← Matrix.mul_assoc, hpull]

section Tree

variable [DecidableEq ι] {t : LinkTree ι} {s s' : Store ι K}

/-- Every joint of the tree has its child in place, with an orthogonal joint rotation. -/
structure TreePlaced (t : LinkTree ι) (s : Store ι K) : Prop where
  placed : ∀ p c, t.parent c = some p → IsPlaced (s p) (s c)
  rotation : ∀ i ∈ t.links, (jointRotation (s i))ᵀ * jointRotation (s i) = 1

/-- A walk over a traverse that misses no link puts every child in place. -/
theorem treePlaced_calcForwardKinematics {base : ι} {ups downs : List ι} {tr : LinkTraverse ι}
    (h : IsTraverse t base ups downs tr) (hall : ∀ i ∈ t.links, i ∈ base :: (ups ++ downs))
    (hrot : ∀ i ∈ t.links, (jointRotation (s i))ᵀ * jointRotation (s i) = 1) (v a : Bool) :
    TreePlaced t (calcForwardKinematics t tr v a s) := by
  have hlinks : ∀ i ∈ t.links, i ∈ tr.links := fun i hi ↦ h.eq ▸ hall i hi
  refine ⟨fun p c hpc ↦ ?_, fun i hi ↦ ?_⟩
  · obtain ⟨hp, hc⟩ := t.parent_mem hpc
    exact isPlaced_calcForwardKinematics h v a s hrot hpc (hlinks p hp) (hlinks c hc)
  · rw [(joint_eq_of_constants (constants_calcForwardKinematics h v a s i)).1]
    exact hrot i hi

/-- Two placements of a tree that agree on one link agree on every link. -/
theorem TreePlaced.pose_eq (h : TreePlaced t s) (h' : TreePlaced t s')
    (hconst : ∀ i ∈ t.links, constants (s i) = constants (s' i)) {b : ι} (hb : b ∈ t.links)
    (hbase : pose (s b) = pose (s' b)) : ∀ i ∈ t.links, pose (s i) = pose (s' i) := by
  have hiff : ∀ i ∈ t.links,
      (pose (s i) = pose (s' i) ↔ pose (s t.root) = pose (s' t.root)) := by
    refine t.parent_induction Iff.rfl fun p c hpc ih ↦ ?_
    have hc := (t.parent_mem hpc).2
    exact ((h.placed p c hpc).pose_iff (h'.placed p c hpc) (hconst c hc)
      (h.rotation c hc)).trans ih
  exact fun i hi ↦ (hiff i hi).2 ((hiff b hb).1 hbase)

/-- In a placed tree, one orthogonal attitude makes that of the root orthogonal. -/
theorem TreePlaced.orthogonal_root (h : TreePlaced t s) {b : ι} (hb : b ∈ t.links)
    (hbase : (s b).Rᵀ * (s b).R = 1) : (s t.root).Rᵀ * (s t.root).R = 1 := by
  have hiff : ∀ i ∈ t.links,
      ((s i).Rᵀ * (s i).R = 1 ↔ (s t.root).Rᵀ * (s t.root).R = 1) := by
    refine t.parent_induction Iff.rfl fun p c hpc ih ↦ ?_
    exact ((h.placed p c hpc).orthogonal_iff (h.rotation c (t.parent_mem hpc).2)).trans ih
  exact (hiff b hb).1 hbase

/-- Two placements of a tree show the same relative poses. -/
theorem TreePlaced.relativePose_eq (h : TreePlaced t s) (h' : TreePlaced t s')
    (hconst : ∀ i ∈ t.links, constants (s i) = constants (s' i))
    (hroot : (s t.root).Rᵀ * (s t.root).R = 1) (hroot' : (s' t.root).Rᵀ * (s' t.root).R = 1) :
    ∀ i ∈ t.links, ∀ j ∈ t.links, relativePose (s i) (s j) = relativePose (s' i) (s' j) := by
  have hseen : ∀ i ∈ t.links,
      relativePose (s t.root) (s i) = relativePose (s' t.root) (s' i) := by
    refine t.parent_induction ?_ fun p c hpc ih ↦ ?_
    · rw [relativePose, relativePose, hroot, hroot', sub_self, sub_self, mulVec_zero, mulVec_zero]
    · obtain ⟨hrotation, hoffset⟩ := joint_eq_of_constants (hconst c (t.parent_mem hpc).2)
      rw [(h.placed p c hpc).relativePose, (h'.placed p c hpc).relativePose, ih, hrotation,
        hoffset]
  intro i hi j hj
  rw [OpenHRP.relativePose_eq hroot (s i), OpenHRP.relativePose_eq hroot' (s' i), hseen i hi,
    hseen j hj]

/-- **Re-rooting is pose-consistent.** Once the poses come from a walk from the root, a walk from
any other link `b` leaves all of them; and a walk from `b` over stale poses, wherever it finds `b`,
shows the relative poses of the walk from the root. -/
theorem calcForwardKinematics_reroot (t : LinkTree ι) {b : ι} (hb : b ∈ t.links) (s : Store ι K)
    (hrot : ∀ i ∈ t.links, (s i).jointType = .rotationalJoint →
      (rodrigues (s i).a (s i).q)ᵀ * rodrigues (s i).a (s i).q = 1)
    (v a v' a' : Bool) :
    let s₁ := calcForwardKinematics t (.find t t.root false true) v a s
    (∀ i ∈ t.links, pose (calcForwardKinematics t (.find t b true true) v' a' s₁ i) =
      pose (s₁ i)) ∧
    ∀ s' : Store ι K, (∀ i ∈ t.links, constants (s' i) = constants (s i)) →
      (s t.root).Rᵀ * (s t.root).R = 1 → (s' b).Rᵀ * (s' b).R = 1 →
      ∀ i ∈ t.links, ∀ j ∈ t.links,
        relativePose (calcForwardKinematics t (.find t b true true) v' a' s' i)
          (calcForwardKinematics t (.find t b true true) v' a' s' j) =
        relativePose (s₁ i) (s₁ j) := by
  intro s₁
  obtain ⟨ups₁, downs₁, htr₁, hall₁⟩ := LinkTraverse.exists_find t.root_mem false true
  obtain ⟨ups₂, downs₂, htr₂, hall₂⟩ := LinkTraverse.exists_find hb true true
  have hjoint : ∀ i ∈ t.links, (jointRotation (s i))ᵀ * jointRotation (s i) = 1 := by
    intro i hi
    rw [jointRotation]
    split
    · exact hrot i hi ‹_›
    all_goals rw [transpose_one, mul_one]
  have h₁ : TreePlaced t s₁ :=
    treePlaced_calcForwardKinematics htr₁ (hall₁ rfl (.inr rfl)) hjoint v a
  have hconst₁ : ∀ i, constants (s₁ i) = constants (s i) :=
    constants_calcForwardKinematics htr₁ v a s
  refine ⟨?_, fun s' hconst hroot hbase ↦ ?_⟩
  · have h₂ : TreePlaced t (calcForwardKinematics t (.find t b true true) v' a' s₁) :=
      treePlaced_calcForwardKinematics htr₂ (hall₂ rfl (.inl rfl)) h₁.rotation v' a'
    refine h₂.pose_eq h₁ (fun i _ ↦ constants_calcForwardKinematics htr₂ v' a' s₁ i) hb ?_
    have hkeep := calcForwardKinematics_base htr₂ v' a' s₁
    exact Prod.ext (congrArg Link.p hkeep :) (congrArg Link.R hkeep :)
  · have hjoint' : ∀ i ∈ t.links, (jointRotation (s' i))ᵀ * jointRotation (s' i) = 1 :=
      fun i hi ↦ by
        rw [(joint_eq_of_constants (hconst i hi)).1]
        exact hjoint i hi
    have h₂ : TreePlaced t (calcForwardKinematics t (.find t b true true) v' a' s') :=
      treePlaced_calcForwardKinematics htr₂ (hall₂ rfl (.inl rfl)) hjoint' v' a'
    have hR₁ : (s₁ t.root).R = (s t.root).R :=
      (congrArg Link.R (calcForwardKinematics_base htr₁ v a s) :)
    have hR₂ : (calcForwardKinematics t (.find t b true true) v' a' s' b).R = (s' b).R :=
      (congrArg Link.R (calcForwardKinematics_base htr₂ v' a' s') :)
    refine h₂.relativePose_eq h₁ (fun i hi ↦ ?_) (h₂.orthogonal_root hb ?_) ?_
    · rw [constants_calcForwardKinematics htr₂, hconst i hi, hconst₁]
    · rw [hR₂, hbase]
    · rw [hR₁, hroot]

/-- A rotational joint away from its parent's origin. -/
def elbow (i : Fin 2) : Link ℚ :=
  if i = 0 then Link.blank
  else
    { Link.blank with
      jointType := .rotationalJoint, jointId := 0, a := ![0, 0, 1], b := ![1, 0, 0],
      p := ![7, 7, 7] }

theorem calcForwardKinematics_reroot_elbow :
    let s₁ := calcForwardKinematics oneJointTree (.find oneJointTree 0 false true) false false elbow
    (∀ i ∈ oneJointTree.links,
      pose (calcForwardKinematics oneJointTree (.find oneJointTree 1 true true) false false s₁ i) =
        pose (s₁ i)) ∧
    ∀ s' : Store (Fin 2) ℚ, (∀ i ∈ oneJointTree.links, constants (s' i) = constants (elbow i)) →
      (elbow 0).Rᵀ * (elbow 0).R = 1 → (s' 1).Rᵀ * (s' 1).R = 1 →
      ∀ i ∈ oneJointTree.links, ∀ j ∈ oneJointTree.links,
        relativePose
          (calcForwardKinematics oneJointTree (.find oneJointTree 1 true true) false false s' i)
          (calcForwardKinematics oneJointTree (.find oneJointTree 1 true true) false false s' j) =
        relativePose (s₁ i) (s₁ j) :=
  calcForwardKinematics_reroot oneJointTree (by decide) elbow (by decide +kernel) _ _ _ _

end Tree

end OpenHRP
