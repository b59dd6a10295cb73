import OpenHRP.Kinematics.Rerooting

/-!
# Poses along a traverse

Forward kinematics computes each pose of a traverse from the pose before it and one joint: that of
the link left behind on the way up, that of the link reached on the way down. So the poses are a
function of the pose of the base and of what the walk leaves alone
(`pose_calcForwardKinematics_congr`). Walking once more changes none of them
(`agrees_calcForwardKinematics`).
-/

open Matrix

namespace OpenHRP

variable {ι K : Type*} [Field K] [CMath K]

/-- The pose of a parent, from the pose of its child. -/
def upwardPose (P : Vector3 K × Matrix33 K) (child : Link K) : Vector3 K × Matrix33 K :=
  (P.1 - (P.2 * (jointRotation child)ᵀ) *ᵥ jointOffset child, P.2 * (jointRotation child)ᵀ)

/-- The pose of a child, from the pose of its parent. -/
def downwardPose (P : Vector3 K × Matrix33 K) (child : Link K) : Vector3 K × Matrix33 K :=
  (P.1 + P.2 *ᵥ jointOffset child, P.2 * jointRotation child)

theorem upwardPose_congr (P : Vector3 K × Matrix33 K) {child child' : Link K}
    (h : constants child = constants child') : upwardPose P child = upwardPose P child' := by
  obtain ⟨hrotation, hoffset⟩ := joint_eq_of_constants h
  rw [upwardPose, hrotation, hoffset, upwardPose]

theorem downwardPose_congr (P : Vector3 K × Matrix33 K) {child child' : Link K}
    (h : constants child = constants child') : downwardPose P child = downwardPose P child' := by
  obtain ⟨hrotation, hoffset⟩ := joint_eq_of_constants h
  rw [downwardPose, hrotation, hoffset, downwardPose]

section Walk

variable [DecidableEq ι] {t : LinkTree ι} {base : ι} {ups downs : List ι} {tr : LinkTraverse ι}

theorem pose_base (h : IsTraverse t base ups downs tr) (v a : Bool) (s : Store ι K) :
    pose (calcForwardKinematics t tr v a s base) = pose (s base) :=
  (congrArg pose (calcForwardKinematics_base h v a s) :)

theorem pose_upward (h : IsTraverse t base ups downs tr) (v a : Bool) (s : Store ι K) {c p : ι}
    (hc : ∃ l l', base :: ups = l ++ c :: p :: l') :
    pose (calcForwardKinematics t tr v a s p) =
      upwardPose (pose (calcForwardKinematics t tr v a s c)) (s c) := by
  obtain ⟨l, l', hl⟩ := hc
  set s' := calcForwardKinematics t tr v a s with hs'
  have heq : dropAxis (s' p) = dropAxis (calcUpward v a (dropAxis (s' c)) (dropAxis (s p))) :=
    calcForwardKinematics_connection h v a s (List.mem_append_left _ (mem_upConnections hl))
  obtain ⟨hR, hp⟩ := calcUpward_pose v a (dropAxis (s' c)) (dropAxis (s p))
  have hpose : pose (s' p) = upwardPose (pose (s' c)) (s' c) :=
    Prod.ext ((congrArg Link.p heq :).trans hp) ((congrArg Link.R heq :).trans hR)
  rw [hpose, upwardPose_congr _ (constants_calcForwardKinematics h v a s c)]

theorem pose_downward (h : IsTraverse t base ups downs tr) (v a : Bool) (s : Store ι K) {p c : ι}
    (hp : t.parent c = some p) (hc : c ∈ downs) :
    pose (calcForwardKinematics t tr v a s c) =
      downwardPose (pose (calcForwardKinematics t tr v a s p)) (s c) := by
  set s' := calcForwardKinematics t tr v a s with hs'
  have heq : dropAxis (s' c) = dropAxis (calcDownward v a (dropAxis (s' p)) (dropAxis (s c))) :=
    calcForwardKinematics_connection h v a s
      (List.mem_append_right _ (mem_downConnections hp hc))
  obtain ⟨hR, hpos⟩ := calcDownward_pose v a (dropAxis (s' p)) (dropAxis (s c))
  exact Prod.ext ((congrArg Link.p heq :).trans hpos) ((congrArg Link.R heq :).trans hR)

/-- Poses depend on the pose of the base and on what the walk leaves alone. -/
theorem pose_calcForwardKinematics_congr (h : IsTraverse t base ups downs tr) (v a : Bool)
    {s s' : Store ι K} (hbase : pose (s base) = pose (s' base))
    (hconst : ∀ i, constants (s i) = constants (s' i)) :
    ∀ i ∈ tr.links, pose (calcForwardKinematics t tr v a s i) =
      pose (calcForwardKinematics t tr v a s' i) := by
  refine h.induction ?_ (fun c p hc ih ↦ ?_) fun p c hc hp ih ↦ ?_
  · rw [pose_base h, pose_base h, hbase]
  · rw [pose_upward h v a s hc, pose_upward h v a s' hc, ih, upwardPose_congr _ (hconst c)]
  · rw [pose_downward h v a s hp hc, pose_downward h v a s' hp hc, ih,
      downwardPose_congr _ (hconst c)]

/-- The poses of the links on a traverse are those that forward kinematics computes. -/
def AgreesWithFK (t : LinkTree ι) (tr : LinkTraverse ι) (s : Store ι K) : Prop :=
  ∀ i ∈ tr.links, pose (calcForwardKinematics t tr false false s i) = pose (s i)

theorem agrees_calcForwardKinematics (h : IsTraverse t base ups downs tr) (s : Store ι K) :
    AgreesWithFK t tr (calcForwardKinematics t tr false false s) :=
  pose_calcForwardKinematics_congr h false false (pose_base h false false s)
    (constants_calcForwardKinematics h false false s)

end Walk

end OpenHRP
