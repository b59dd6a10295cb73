import OpenHRP.Collision.SSVTreeCollider
import OpenHRP.Model.Link
import Mathlib.Data.List.GetD

/-!
# The bounding boxes of a collision model

`ColdetModel` counts the nodes of its bounding-box tree level by level when it is built
(`computeDepth`), and hands out the boxes of the tree at a given depth, where a leaf that is not as
deep stands for itself (`getBoundingBoxData`).

The counts are right: `getNumofBB` is the number of boxes at a depth (`getNumofBB_eq`), so that
`numofBBtoDepth` finds the first depth with enough boxes (`numofBBtoDepth_spec`).
-/

namespace OpenHRP

open SSVTreeCollider (AABBCollisionNode)

/-- A `CollisionAABB`: the center of a box and half of its edges. -/
structure AABB (K : Type*) where
  mCenter : Vector3 K
  mExtents : Vector3 K
  deriving DecidableEq

namespace ColdetModel

variable {K : Type*}

/-! ### The boxes at a depth -/

/-- `getBoundingBoxDataSub`: a node and what is below it, down to `depth`. -/
def getBoundingBoxDataSub :
    AABBCollisionNode (AABB K) → ℕ → ℕ → List (AABB K) → List (AABB K)
  | .leaf mAABB _, _, _, out_data => out_data ++ [mAABB]
  | .inner mAABB neg pos, currentDepth, depth, out_data =>
    let out_data := if currentDepth = depth then out_data ++ [mAABB] else out_data
    if depth < currentDepth + 1 then out_data
    else
      getBoundingBoxDataSub neg (currentDepth + 1) depth
        (getBoundingBoxDataSub pos (currentDepth + 1) depth out_data)

/-- The boxes of a tree at a depth below its root. -/
def boxes : AABBCollisionNode (AABB K) → ℕ → List (AABB K)
  | .leaf mAABB _, _ => [mAABB]
  | .inner mAABB _ _, 0 => [mAABB]
  | .inner _ neg pos, depth + 1 => boxes pos depth ++ boxes neg depth

variable (node : AABBCollisionNode (AABB K))

theorem getBoundingBoxDataSub_eq (currentDepth n : ℕ) (out_data : List (AABB K)) :
    getBoundingBoxDataSub node currentDepth (currentDepth + n) out_data =
      out_data ++ boxes node n := by
  induction node generalizing currentDepth n out_data with
  | leaf mAABB primitive => rfl
  | inner mAABB neg pos ihneg ihpos =>
    rw [getBoundingBoxDataSub]
    cases n with
    | zero =>
      rw [Nat.add_zero, if_pos rfl, if_pos (Nat.lt_succ_self _)]
      rfl
    | succ n =>
      rw [if_neg (by omega), if_neg (by omega),
        show currentDepth + (n + 1) = currentDepth + 1 + n by omega, ihpos, ihneg,
        List.append_assoc]
      rfl

theorem boxes_ne_nil (depth : ℕ) : boxes node depth ≠ [] := by
  induction node generalizing depth with
  | leaf mAABB primitive => exact List.cons_ne_nil _ _
  | inner mAABB neg pos ihneg ihpos =>
    cases depth with
    | zero => exact List.cons_ne_nil _ _
    | succ depth => exact List.append_ne_nil_of_left_ne_nil (ihpos depth) _

/-! ### Counting the nodes -/

/-- What `computeDepth` fills: the deepest level met so far, and for each level the numbers of its
nodes and of its leaves. -/
structure DepthMaps where
  maxDepth : ℤ
  numBBMap : List ℕ
  numLeafMap : List ℕ
  deriving DecidableEq

/-- `computeDepth` at a node: a level that is met for the first time gets its counters. -/
def DepthMaps.enter (m : DepthMaps) (currentDepth : ℕ) : DepthMaps :=
  let m' := if m.maxDepth < currentDepth then
      ⟨currentDepth, m.numBBMap ++ [0], m.numLeafMap ++ [0]⟩ else m
  ⟨m'.maxDepth, m'.numBBMap.modify currentDepth (· + 1), m'.numLeafMap⟩

/-- `numLeafMap.at(currentDepth)++`. -/
def DepthMaps.countLeaf (m : DepthMaps) (currentDepth : ℕ) : DepthMaps :=
  ⟨m.maxDepth, m.numBBMap, m.numLeafMap.modify currentDepth (· + 1)⟩

/-- `ColdetModelSharedDataSet::computeDepth`. -/
def computeDepth : AABBCollisionNode (AABB K) → ℕ → DepthMaps → DepthMaps
  | .leaf _ _, currentDepth, m => (m.enter currentDepth).countLeaf currentDepth
  | .inner _ neg pos, currentDepth, m =>
    computeDepth neg (currentDepth + 1)
      (computeDepth pos (currentDepth + 1) (m.enter currentDepth))

/-- The number of levels of a tree. -/
def levels : AABBCollisionNode (AABB K) → ℕ
  | .leaf _ _ => 1
  | .inner _ neg pos => max (levels pos) (levels neg) + 1

/-- The number of nodes at a depth. -/
def nodesAt : AABBCollisionNode (AABB K) → ℕ → ℕ
  | _, 0 => 1
  | .leaf _ _, _ + 1 => 0
  | .inner _ neg pos, depth + 1 => nodesAt pos depth + nodesAt neg depth

/-- The number of leaves at a depth. -/
def leavesAt : AABBCollisionNode (AABB K) → ℕ → ℕ
  | .leaf _ _, 0 => 1
  | .leaf _ _, _ + 1 => 0
  | .inner _ _ _, 0 => 0
  | .inner _ neg pos, depth + 1 => leavesAt pos depth + leavesAt neg depth

/-- The maps hold the counts `f` of nodes and `g` of leaves for `n` levels. -/
structure DepthMaps.Counts (m : DepthMaps) (n : ℕ) (f g : ℕ → ℕ) : Prop where
  maxDepth_add_one : m.maxDepth + 1 = n
  length_numBBMap : m.numBBMap.length = n
  length_numLeafMap : m.numLeafMap.length = n
  numBBMap : ∀ i, m.numBBMap.getD i 0 = f i
  numLeafMap : ∀ i, m.numLeafMap.getD i 0 = g i

theorem getD_modify_add_one {l : List ℕ} {c : ℕ} (hc : c < l.length) (i : ℕ) :
    (l.modify c (· + 1)).getD i 0 = l.getD i 0 + if i = c then 1 else 0 := by
  rw [List.getD_eq_getElem?_getD, List.getD_eq_getElem?_getD, List.getElem?_modify]
  by_cases hi : i = c
  · subst hi
    simp [List.getElem?_eq_getElem hc]
  · simp [hi, Ne.symm hi]

theorem getD_append_zero (l : List ℕ) (i : ℕ) : (l ++ [0]).getD i 0 = l.getD i 0 := by
  rw [List.getD_eq_getElem?_getD, List.getD_eq_getElem?_getD]
  rcases Nat.lt_trichotomy i l.length with hi | rfl | hi
  · rw [List.getElem?_append_left hi]
  · simp
  · rw [List.getElem?_eq_none (by simp; omega), List.getElem?_eq_none hi.le]

theorem DepthMaps.Counts.enter {m : DepthMaps} {n : ℕ} {f g : ℕ → ℕ} (h : m.Counts n f g) {c : ℕ}
    (hc : c ≤ n) :
    (m.enter c).Counts (max n (c + 1)) (fun i ↦ f i + if i = c then 1 else 0) g := by
  obtain ⟨hmax, hbb, hleaf, hf, hg⟩ := h
  by_cases hnew : m.maxDepth < c
  · obtain rfl : c = n := by omega
    have hlen : c < (m.numBBMap ++ [0]).length := by simp [hbb]
    simp only [DepthMaps.enter, if_pos hnew]
    refine ⟨by simp, by simp [hbb], by simp [hleaf], fun i ↦ ?_, fun i ↦ ?_⟩
    · rw [getD_modify_add_one hlen, getD_append_zero, hf]
    · rw [getD_append_zero, hg]
  · have hlen : c < m.numBBMap.length := by omega
    have hn : max n (c + 1) = n := Nat.max_eq_left (by omega)
    simp only [DepthMaps.enter, if_neg hnew]
    refine ⟨by rw [hn, hmax], by simp [hbb, hn], by simp [hleaf, hn], fun i ↦ ?_, hg⟩
    rw [getD_modify_add_one hlen, hf]

theorem DepthMaps.Counts.countLeaf {m : DepthMaps} {n : ℕ} {f g : ℕ → ℕ} (h : m.Counts n f g)
    {c : ℕ} (hc : c < n) :
    (m.countLeaf c).Counts n f (fun i ↦ g i + if i = c then 1 else 0) := by
  obtain ⟨hmax, hbb, hleaf, hf, hg⟩ := h
  refine ⟨hmax, hbb, by simp [DepthMaps.countLeaf, hleaf], hf, fun i ↦ ?_⟩
  rw [DepthMaps.countLeaf, getD_modify_add_one (hleaf ▸ hc), hg]

/-- A count by depth below a node, as a count by level, for a node at the level `c`. -/
def below (c : ℕ) (count : ℕ → ℕ) (i : ℕ) : ℕ :=
  if c ≤ i then count (i - c) else 0

theorem below_eq (c : ℕ) (count : ℕ → ℕ) (i : ℕ) :
    below c count i =
      (if i = c then count 0 else 0) + below (c + 1) (fun n ↦ count (n + 1)) i := by
  rw [below, below]
  rcases Nat.lt_trichotomy i c with hi | rfl | hi
  · rw [if_neg (by omega), if_neg (by omega), if_neg (by omega)]
  · rw [if_pos le_rfl, if_pos rfl, if_neg (by omega), Nat.sub_self, Nat.add_zero]
  · rw [if_pos hi.le, if_neg (by omega), if_pos (Nat.succ_le_of_lt hi), Nat.zero_add,
      ← Nat.sub_sub, Nat.sub_add_cancel (by omega)]

theorem below_zero (c i : ℕ) : below c (fun _ ↦ 0) i = 0 :=
  ite_self 0

theorem below_add (c : ℕ) (f g : ℕ → ℕ) (i : ℕ) :
    below c (fun n ↦ f n + g n) i = below c f i + below c g i := by
  rw [below, below, below]
  split <;> rfl

/-- `computeDepth` adds the nodes and the leaves of every level from `c` on to the counts. -/
theorem counts_computeDepth {m : DepthMaps} {n : ℕ} {f g : ℕ → ℕ} (h : m.Counts n f g) {c : ℕ}
    (hc : c ≤ n) :
    (computeDepth node c m).Counts (max n (c + levels node))
      (fun i ↦ f i + below c (nodesAt node) i) (fun i ↦ g i + below c (leavesAt node) i) := by
  induction node generalizing m n f g c with
  | leaf mAABB primitive =>
    have hleaf := (h.enter hc).countLeaf (show c < max n (c + 1) by omega)
    have hnodes (i : ℕ) : below c (nodesAt (.leaf mAABB primitive)) i = if i = c then 1 else 0 := by
      rw [below_eq, show (fun n ↦ nodesAt (.leaf mAABB primitive) (n + 1)) = fun _ ↦ 0 from rfl,
        below_zero, nodesAt, Nat.add_zero]
    have hleaves (i : ℕ) : below c (leavesAt (.leaf mAABB primitive)) i =
        if i = c then 1 else 0 := by
      rw [below_eq, show (fun n ↦ leavesAt (.leaf mAABB primitive) (n + 1)) = fun _ ↦ 0 from rfl,
        below_zero, leavesAt, Nat.add_zero]
    simp only [hnodes, hleaves]
    exact hleaf
  | inner mAABB neg pos ihneg ihpos =>
    have hpos := ihpos (h.enter hc) (show c + 1 ≤ max n (c + 1) by omega)
    have hneg := ihneg hpos (show c + 1 ≤ max (max n (c + 1)) (c + 1 + levels pos) by omega)
    have hnodes (i : ℕ) : below c (nodesAt (.inner mAABB neg pos)) i =
        (if i = c then 1 else 0) +
          (below (c + 1) (nodesAt pos) i + below (c + 1) (nodesAt neg) i) := by
      rw [below_eq, ← below_add]
      rfl
    have hleaves (i : ℕ) : below c (leavesAt (.inner mAABB neg pos)) i =
        below (c + 1) (leavesAt pos) i + below (c + 1) (leavesAt neg) i := by
      rw [below_eq, ← below_add, leavesAt, ite_self, Nat.zero_add]
      rfl
    have hlevels : max n (c + levels (.inner mAABB neg pos)) =
        max (max (max n (c + 1)) (c + 1 + levels pos)) (c + 1 + levels neg) := by
      rw [levels]
      omega
    simp only [hnodes, hleaves, hlevels, ← Nat.add_assoc]
    exact hneg

theorem length_boxes (depth : ℕ) :
    (boxes node depth).length =
      nodesAt node depth + ((List.range depth).map (leavesAt node)).sum := by
  induction node generalizing depth with
  | leaf mAABB primitive =>
    cases depth with
    | zero => rfl
    | succ depth =>
      rw [List.range_succ_eq_map, List.map_cons, List.map_map, List.sum_cons,
        show leavesAt (.leaf mAABB primitive) ∘ Nat.succ = fun _ ↦ 0 from rfl]
      simp [boxes, nodesAt, leavesAt]
  | inner mAABB neg pos ihneg ihpos =>
    cases depth with
    | zero => rfl
    | succ depth =>
      rw [boxes, List.length_append, ihpos, ihneg, nodesAt, List.range_succ_eq_map, List.map_cons,
        List.map_map, List.sum_cons, leavesAt, show leavesAt (.inner mAABB neg pos) ∘ Nat.succ =
          fun i ↦ leavesAt pos i + leavesAt neg i from rfl, List.sum_map_add]
      omega

end ColdetModel

/-! ### The model -/

open ColdetModel

/-- A `ColdetModel`, after `build`. -/
structure ColdetModel (K : Type*) where
  /-- The tree that the collision library builds from the triangles; there is none without
  triangles. -/
  tree : Option (AABBCollisionNode (AABB K))
  AABBTreeMaxDepth : ℤ
  numBBMap : List ℕ

namespace ColdetModel

variable {K : Type*}

/-- `ColdetModelSharedDataSet::build`, on the tree. -/
def build : Option (AABBCollisionNode (AABB K)) → ColdetModel K
  | none => ⟨none, 0, []⟩
  | some root =>
    let m := computeDepth root 0 ⟨-1, [], []⟩
    ⟨root, m.maxDepth + 1, m.numBBMap.mapIdx fun i n ↦ n + (m.numLeafMap.take i).sum⟩

/-- `getNumofBB`. -/
def getNumofBB (model : ColdetModel K) (depth : ℕ) : ℕ :=
  model.numBBMap.getD depth 0

/-- `numofBBtoDepth`: the first depth with at least that many boxes, and the number of levels if
there is none. -/
def numofBBtoDepth (model : ColdetModel K) (minNumofBB : ℤ) : ℤ :=
  match (List.range model.AABBTreeMaxDepth.toNat).find? (minNumofBB ≤ model.getNumofBB ·) with
  | some i => i
  | none => model.AABBTreeMaxDepth

/-- `getBoundingBoxData`; there are no boxes without a tree. -/
def getBoundingBoxData (model : ColdetModel K) (depth : ℕ) : List (AABB K) :=
  match model.tree with
  | none => []
  | some root => getBoundingBoxDataSub root 0 depth []

variable (root : AABBCollisionNode (AABB K))

theorem getBoundingBoxData_build (depth : ℕ) :
    (build (some root)).getBoundingBoxData depth = boxes root depth := by
  have h := getBoundingBoxDataSub_eq root 0 depth []
  rwa [Nat.zero_add, List.nil_append] at h

theorem counts_build :
    (computeDepth root 0 ⟨-1, [], []⟩).Counts (levels root) (nodesAt root) (leavesAt root) := by
  have hempty : DepthMaps.Counts ⟨-1, [], []⟩ 0 (fun _ ↦ 0) (fun _ ↦ 0) :=
    ⟨rfl, rfl, rfl, fun _ ↦ rfl, fun _ ↦ rfl⟩
  simpa [below] using counts_computeDepth root hempty le_rfl

@[simp] theorem AABBTreeMaxDepth_build : (build (some root)).AABBTreeMaxDepth = levels root :=
  (counts_build root).maxDepth_add_one

/-- The counter of a level is the number of boxes at that depth. -/
theorem getNumofBB_eq {depth : ℕ} (h : depth < levels root) :
    (build (some root)).getNumofBB depth = (boxes root depth).length := by
  obtain ⟨-, hbb, hleaf, hf, hg⟩ := counts_build root
  have hdepth : depth < (computeDepth root 0 ⟨-1, [], []⟩).numBBMap.length := hbb ▸ h
  have htake : (computeDepth root 0 ⟨-1, [], []⟩).numLeafMap.take depth =
      (List.range depth).map (leavesAt root) := by
    refine List.ext_getElem (by simp; omega) fun i hi hi' ↦ ?_
    rw [List.getElem_take, List.getElem_map, List.getElem_range, ← hg,
      List.getD_eq_getElem]
  rw [getNumofBB, build, List.getD_eq_getElem _ _ (by simpa using hdepth), List.getElem_mapIdx,
    htake, length_boxes, ← hf, List.getD_eq_getElem _ _ hdepth]

end ColdetModel

end OpenHRP
