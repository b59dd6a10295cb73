import OpenHRP.Kinematics.PathPose
import OpenHRP.Model.SimplePath
import OpenHRP.Model.TraverseOrder

/-!
# Walks along paths

`JointPath` runs forward kinematics along its path only. The links of the path get the poses that a
walk through the whole tree gives them (`calcForwardKinematics_path`), and the path back, which has
the same links, finds every one of them in place (`calcForwardKinematics_back`).
-/

open Matrix

namespace OpenHRP

variable {ι K : Type*} [Field K] [CMath K] [DecidableEq ι] {t : LinkTree ι} {base endLink : ι}

/-- Two walks that agree at the base of the first one agree on all its links. -/
theorem IsTraverse.pose_eq {base' : ι} {ups downs ups' downs' : List ι} {tr tr' : LinkTraverse ι}
    (h : IsTraverse t base ups downs tr) (h' : IsTraverse t base' ups' downs' tr')
    (hsub : ∀ i ∈ tr.links, i ∈ tr'.links) {s s' : Store ι K}
    (hconst : ∀ i, constants (s i) = constants (s' i))
    (hrot : ∀ i ∈ t.links, (jointRotation (s' i))ᵀ * jointRotation (s' i) = 1) (v a v' a' : Bool)
    (hbase : pose (s base) = pose (calcForwardKinematics t tr' v' a' s' base)) :
    ∀ i ∈ tr.links, pose (calcForwardKinematics t tr v a s i) =
      pose (calcForwardKinematics t tr' v' a' s' i) := by
  have hlinks : tr.links = base :: (ups ++ downs) := by rw [h.eq]
  have hrot' : ∀ i ∈ t.links, (jointRotation (s i))ᵀ * jointRotation (s i) = 1 := fun i hi ↦ by
    rw [(joint_eq_of_constants (hconst i)).1]
    exact hrot i hi
  have hiff {p c : ι} (hpc : t.parent c = some p) (hp : p ∈ tr.links) (hc : c ∈ tr.links) :=
    (isPlaced_calcForwardKinematics h v a s hrot' hpc hp hc).pose_iff
      (isPlaced_calcForwardKinematics h' v' a' s' hrot hpc (hsub p hp) (hsub c hc))
      (by rw [constants_calcForwardKinematics h, constants_calcForwardKinematics h', hconst])
      (by
        rw [(joint_eq_of_constants (constants_calcForwardKinematics h v a s c)).1]
        exact hrot' c (t.parent_mem hpc).2)
  refine fun i hi ↦ (h.induction (P := fun i ↦ i ∈ tr.links ∧ pose _ = pose _)
    ⟨hlinks ▸ List.mem_cons_self, (pose_base h v a s).trans hbase⟩ ?_ ?_ i hi).2
  · rintro c p ⟨l, l', hl⟩ ⟨hc, ih⟩
    have hp : p ∈ tr.links := by
      rw [hlinks, ← List.cons_append, hl]
      simp
    have hpc : t.parent c = some p := by
      have hasc := h.ascends
      rw [hl, Ascends, List.isChain_append] at hasc
      exact (List.isChain_cons_cons.1 hasc.2.1).1
    exact ⟨hp, (hiff hpc hp hc).1 ih⟩
  · rintro p c hc hpc ⟨hp, ih⟩
    have hc' : c ∈ tr.links := by
      rw [hlinks]
      simp [hc]
    exact ⟨hc', (hiff hpc hp hc').2 ih⟩

/-- **A path places its links as the whole tree does.** -/
theorem calcForwardKinematics_path (hbase : base ∈ t.links) (hend : endLink ∈ t.links)
    (s : Store ι K) (hrot : ∀ i ∈ t.links, (jointRotation (s i))ᵀ * jointRotation (s i) = 1)
    (v a v' a' : Bool) :
    ∀ i ∈ (LinkPath.find t base endLink).2.links,
      pose (calcForwardKinematics t (LinkPath.find t base endLink).2 v a s i) =
        pose (calcForwardKinematics t (.find t base true true) v' a' s i) := by
  obtain ⟨ups, top, downs, hfind, hpath⟩ := LinkPath.exists_find hbase hend
  obtain ⟨ups', -, htr⟩ := hpath.exists_isTraverse
  obtain ⟨ups₂, downs₂, htr₂, hall⟩ := LinkTraverse.exists_find hbase true true
  rw [hfind]
  refine htr.pose_eq htr₂ (fun i hi ↦ ?_) (fun _ ↦ rfl) hrot v a v' a' (pose_base htr₂ v' a' s).symm
  rw [htr₂.eq]
  exact hall rfl (.inl rfl) i (htr.mem_links hbase (by rwa [htr.eq] at hi))

theorem calcForwardKinematics_path_elbow :
    pose (calcForwardKinematics oneJointTree (LinkPath.find oneJointTree 1 0).2 true true elbow 0) =
      pose (calcForwardKinematics oneJointTree (.find oneJointTree 1 true true) false false elbow
        0) :=
  calcForwardKinematics_path (by decide) (by decide) elbow (by decide +kernel) _ _ _ _ 0 (by decide)

/-- **There and back.** The path back is the path in reverse order, and a walk along it leaves the
poses that the walk along the path has given. -/
theorem calcForwardKinematics_back (hbase : base ∈ t.links) (hend : endLink ∈ t.links)
    (s : Store ι K) (hrot : ∀ i ∈ t.links, (jointRotation (s i))ᵀ * jointRotation (s i) = 1)
    (v a v' a' : Bool) :
    let path := (LinkPath.find t base endLink).2
    let back := (LinkPath.find t endLink base).2
    let s' := calcForwardKinematics t path v a s
    back = ⟨path.links.reverse, path.links.length - 1 - path.numUpwardConnections⟩ ∧
      ∀ i ∈ path.links, pose (calcForwardKinematics t back v' a' s' i) = pose (s' i) := by
  obtain ⟨ups, top, downs, hfind, hpath⟩ := LinkPath.exists_find hbase hend
  obtain ⟨_, _, _, hfind', hpath'⟩ := LinkPath.exists_find hend hbase
  obtain ⟨rfl, rfl, rfl⟩ := hpath'.eq hend hpath.reverse
  obtain ⟨_, -, htr⟩ := hpath.exists_isTraverse
  obtain ⟨_, -, htr'⟩ := hpath'.exists_isTraverse
  have hlinks (x : ι) : downs.reverse ++ x :: ups.reverse = (ups ++ x :: downs).reverse := by simp
  rw [hfind, hfind']
  refine ⟨?_, fun i hi ↦ htr'.pose_eq htr (fun j hj ↦ ?_)
    (constants_calcForwardKinematics htr v a s) hrot v' a' v a rfl i ?_⟩
  · simp
  · exact List.mem_reverse.1 (hlinks _ ▸ hj)
  · exact (hlinks _).symm ▸ List.mem_reverse.2 hi

theorem calcForwardKinematics_back_elbow :
    let path := (LinkPath.find oneJointTree 1 0).2
    let back := (LinkPath.find oneJointTree 0 1).2
    let s' := calcForwardKinematics oneJointTree path false false elbow
    back = ⟨path.links.reverse, path.links.length - 1 - path.numUpwardConnections⟩ ∧
      ∀ i ∈ path.links,
        pose (calcForwardKinematics oneJointTree back false false s' i) = pose (s' i) :=
  calcForwardKinematics_back (by decide) (by decide) elbow (by decide +kernel) _ _ _ _

end OpenHRP
