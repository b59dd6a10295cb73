import OpenHRP.Collision.ColdetModel

/-!
# Building a collision model again

The counters of bounding boxes that `computeDepth` fills are members of the data set of a
`ColdetModel`, and `build` does not clear them. After the first build they count the boxes at each
depth, and they grow with the depth. A second build adds to the counts of the first one, so that
they are never right again (`countsBoxes_iff`).
-/

namespace OpenHRP

open SSVTreeCollider (AABBCollisionNode)
open ColdetModel

variable {K : Type*}

/-- A `ColdetModelSharedDataSet`. -/
structure ColdetModelSharedDataSet (K : Type*) where
  tree : Option (AABBCollisionNode (AABB K))
  AABBTreeMaxDepth : ℤ
  numBBMap : List ℕ
  numLeafMap : List ℕ

namespace ColdetModelSharedDataSet

/-- The constructor. -/
def new : ColdetModelSharedDataSet K :=
  ⟨none, 0, [], []⟩

/-- `build`, with the tree that the collision library builds. Without triangles nothing is done. -/
def build (d : ColdetModelSharedDataSet K) :
    Option (AABBCollisionNode (AABB K)) → ColdetModelSharedDataSet K
  | none => d
  | some root =>
    let m := computeDepth root 0 ⟨-1, d.numBBMap, d.numLeafMap⟩
    { tree := some root
      AABBTreeMaxDepth := m.maxDepth + 1
      numBBMap := m.numBBMap.mapIdx fun i n ↦
        if (i : ℤ) < m.maxDepth + 1 then n + (m.numLeafMap.take i).sum else n
      numLeafMap := m.numLeafMap }

/-- What is read of a data set. -/
def toModel (d : ColdetModelSharedDataSet K) : ColdetModel K :=
  ⟨d.tree, d.AABBTreeMaxDepth, d.numBBMap⟩

/-- The counts are the numbers of boxes, and they do not decrease with the depth. -/
structure CountsBoxes (d : ColdetModelSharedDataSet K) : Prop where
  getNumofBB_eq : ∀ depth : ℕ, depth < d.AABBTreeMaxDepth →
    d.toModel.getNumofBB depth = (d.toModel.getBoundingBoxData depth).length
  getNumofBB_le : ∀ depth : ℕ, depth + 1 < d.AABBTreeMaxDepth →
    d.toModel.getNumofBB depth ≤ d.toModel.getNumofBB (depth + 1)

/-! ### The first build -/

theorem toModel_build_new (root : AABBCollisionNode (AABB K)) :
    (new.build (some root)).toModel = ColdetModel.build (some root) := by
  have hcounts := counts_build root
  simp only [build, toModel, ColdetModel.build, new, ColdetModel.mk.injEq, true_and]
  refine List.ext_getElem (by simp) fun i hi hi' ↦ ?_
  have hlt : (i : ℤ) < (computeDepth root 0 ⟨-1, [], []⟩).maxDepth + 1 := by
    rw [List.length_mapIdx, hcounts.length_numBBMap] at hi
    rw [hcounts.maxDepth_add_one]
    exact_mod_cast hi
  rw [List.getElem_mapIdx, List.getElem_mapIdx]
  exact if_pos hlt

variable (node : AABBCollisionNode (AABB K))

/-- A box is replaced by two at the next depth, or it stays. -/
theorem length_boxes_le (depth : ℕ) :
    (boxes node depth).length ≤ (boxes node (depth + 1)).length := by
  induction node generalizing depth with
  | leaf mAABB primitive => exact le_rfl
  | inner mAABB neg pos ihneg ihpos =>
    rw [boxes, List.length_append]
    cases depth with
    | zero =>
      have := List.length_pos_of_ne_nil (boxes_ne_nil pos 0)
      exact Nat.le_add_right_of_le this
    | succ depth =>
      rw [boxes, List.length_append]
      exact Nat.add_le_add (ihpos depth) (ihneg depth)

theorem countsBoxes_build_new (root : AABBCollisionNode (AABB K)) :
    (new.build (some root)).CountsBoxes := by
  have hlevels : (new.build (some root)).AABBTreeMaxDepth = levels root := by
    have := congrArg ColdetModel.AABBTreeMaxDepth (toModel_build_new root)
    exact this.trans (AABBTreeMaxDepth_build root)
  refine ⟨fun depth h ↦ ?_, fun depth h ↦ ?_⟩
  · rw [hlevels] at h
    rw [toModel_build_new, getNumofBB_eq root (by exact_mod_cast h), getBoundingBoxData_build]
  · rw [hlevels] at h
    rw [toModel_build_new, getNumofBB_eq root (by omega), getNumofBB_eq root (by omega)]
    exact length_boxes_le root depth

/-! ### Later builds -/

theorem enter_maxDepth (m : DepthMaps) (c : ℕ) :
    m.maxDepth ≤ (m.enter c).maxDepth ∧ c ≤ (m.enter c).maxDepth := by
  rw [DepthMaps.enter]
  split <;> dsimp only <;> omega

theorem le_maxDepth_computeDepth (c : ℕ) (m : DepthMaps) :
    m.maxDepth ≤ (computeDepth node c m).maxDepth ∧ c ≤ (computeDepth node c m).maxDepth := by
  induction node generalizing c m with
  | leaf mAABB primitive => exact enter_maxDepth m c
  | inner mAABB neg pos ihneg ihpos =>
    have henter := enter_maxDepth m c
    have hpos := (ihpos (c + 1) (m.enter c)).1
    have hneg := (ihneg (c + 1) (computeDepth pos (c + 1) (m.enter c))).1
    exact ⟨(henter.1.trans hpos).trans hneg, (henter.2.trans hpos).trans hneg⟩

theorem getD_enter (m : DepthMaps) (c : ℕ) (h : m.numBBMap ≠ []) :
    (m.enter (c + 1)).numBBMap ≠ [] ∧
      (m.enter (c + 1)).numBBMap.getD 0 0 = m.numBBMap.getD 0 0 := by
  obtain ⟨n, l, hl⟩ := List.exists_cons_of_ne_nil h
  rw [DepthMaps.enter]
  split <;> simp [hl]

/-- The counter of the root is not touched below it. -/
theorem getD_computeDepth (c : ℕ) (m : DepthMaps) (h : m.numBBMap ≠ []) :
    (computeDepth node (c + 1) m).numBBMap ≠ [] ∧
      (computeDepth node (c + 1) m).numBBMap.getD 0 0 = m.numBBMap.getD 0 0 := by
  induction node generalizing c m with
  | leaf mAABB primitive => exact getD_enter m c h
  | inner mAABB neg pos ihneg ihpos =>
    have henter := getD_enter m c h
    have hpos := ihpos (c + 1) _ henter.1
    have hneg := ihneg (c + 1) _ hpos.1
    exact ⟨hneg.1, hneg.2.trans (hpos.2.trans henter.2)⟩

/-- Every build counts the root once more. -/
theorem getNumofBB_build_zero (d : ColdetModelSharedDataSet K) (root : AABBCollisionNode (AABB K)) :
    (d.build (some root)).toModel.getNumofBB 0 = d.toModel.getNumofBB 0 + 1 := by
  set m : DepthMaps := ⟨-1, d.numBBMap, d.numLeafMap⟩ with hm
  have henter : (m.enter 0).numBBMap ≠ [] ∧
      (m.enter 0).numBBMap.getD 0 0 = d.numBBMap.getD 0 0 + 1 := by
    rw [hm, DepthMaps.enter]
    cases d.numBBMap <;> simp
  have hroot : (computeDepth root 0 m).numBBMap ≠ [] ∧
      (computeDepth root 0 m).numBBMap.getD 0 0 = d.numBBMap.getD 0 0 + 1 := by
    cases root with
    | leaf mAABB primitive => exact henter
    | inner mAABB neg pos =>
      have hpos := getD_computeDepth pos 0 _ henter.1
      have hneg := getD_computeDepth neg 0 _ hpos.1
      exact ⟨hneg.1, hneg.2.trans (hpos.2.trans henter.2)⟩
  obtain ⟨n, l, hl⟩ := List.exists_cons_of_ne_nil hroot.1
  have hn := hroot.2
  rw [hl, List.getD_cons_zero] at hn
  rw [getNumofBB, getNumofBB, toModel, toModel, ← hn, build]
  simp [← hm, hl]

/-- The data set after some builds, with the trees that the collision library builds. -/
def run (builds : List (Option (AABBCollisionNode (AABB K)))) : ColdetModelSharedDataSet K :=
  builds.foldl build new

variable (builds : List (Option (AABBCollisionNode (AABB K))))

theorem run_append (tree : Option (AABBCollisionNode (AABB K))) :
    run (builds ++ [tree]) = (run builds).build tree := by
  rw [run, List.foldl_append]
  rfl

/-- The counter of the root is the number of builds of a tree. -/
theorem getNumofBB_run_zero : (run builds).toModel.getNumofBB 0 = (builds.filterMap id).length := by
  induction builds using List.reverseRecOn with
  | nil => rfl
  | append_singleton builds tree ih =>
    rw [run_append, List.filterMap_append, List.length_append, ← ih]
    cases tree with
    | none => rfl
    | some root => exact getNumofBB_build_zero _ root

/-- After a build of a tree there is a depth, and there is one box at the root. -/
theorem run_root :
    builds.filterMap id = [] ∧ run builds = new ∨
      0 < (run builds).AABBTreeMaxDepth ∧
        ((run builds).toModel.getBoundingBoxData 0).length = 1 := by
  induction builds using List.reverseRecOn with
  | nil => exact .inl ⟨rfl, rfl⟩
  | append_singleton builds tree ih =>
    rw [run_append, List.filterMap_append]
    cases tree with
    | none =>
      rw [show (run builds).build none = run builds from rfl]
      simpa using ih
    | some root =>
      refine .inr ⟨?_, ?_⟩
      · have := (le_maxDepth_computeDepth root 0
          ⟨-1, (run builds).numBBMap, (run builds).numLeafMap⟩).2
        exact Int.lt_add_one_of_le this
      · have hboxes : ((run builds).build (some root)).toModel.getBoundingBoxData 0 =
            getBoundingBoxDataSub root 0 0 [] := rfl
        rw [hboxes]
        cases root <;> rfl

/-- The counts are right as long as a tree has been built once at most. -/
theorem countsBoxes_iff (builds : List (Option (AABBCollisionNode (AABB K)))) :
    (run builds).CountsBoxes ↔ (builds.filterMap id).length ≤ 1 := by
  constructor
  · intro h
    obtain ⟨hnil, -⟩ | ⟨hdepth, hroot⟩ := run_root builds
    · rw [hnil]
      exact Nat.zero_le 1
    · have := h.getNumofBB_eq 0 hdepth
      rw [getNumofBB_run_zero, hroot] at this
      exact this.le
  · intro h
    -- builds without triangles change nothing
    have hrun : run builds = run ((builds.filterMap id).map some) := by
      induction builds using List.reverseRecOn with
      | nil => rfl
      | append_singleton builds tree ih =>
        have hle : (builds.filterMap id).length ≤ 1 := by
          rw [List.filterMap_append, List.length_append] at h
          omega
        rw [run_append, ih hle, List.filterMap_append, List.map_append]
        cases tree with
        | none => simp [build]
        | some root => exact (run_append _ _).symm
    rw [hrun]
    match hroots : builds.filterMap id, h with
    | [], _ =>
      refine ⟨fun depth hdepth ↦ ?_, fun depth hdepth ↦ ?_⟩
      · exact absurd hdepth (by simp [run, new])
      · exact absurd hdepth (by simp [run, new]; omega)
    | [root], _ => exact countsBoxes_build_new root

/-! ### Example -/

/-- A tree with one triangle. -/
def oneBox : AABBCollisionNode (AABB ℚ) :=
  .leaf ⟨0, 0⟩ 0

/-- After the second build there are two boxes by the counter, and one is delivered. -/
theorem not_countsBoxes_twice : ¬(run [some oneBox, some oneBox]).CountsBoxes := by
  intro h
  exact absurd (h.getNumofBB_eq 0 (by decide)) (by decide)

end ColdetModelSharedDataSet

end OpenHRP
