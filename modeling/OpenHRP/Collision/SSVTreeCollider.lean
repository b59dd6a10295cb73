import OpenHRP.Foundations.BranchAndBound
import Mathlib.Algebra.Order.Ring.Rat
import Mathlib.Order.Bounds.Defs

/-!
# Distance and tolerance queries on trees of swept spheres

`SSVTreeCollider::_Distance` and `SSVTreeCollider::_Collide`: two recursions over a pair of
bounding-volume trees that descend into the larger of the two volumes and skip pairs whose volumes
are further apart than the distance found so far, or than the tolerance. The volumes (`V`), their
sizes and distances, and the distance of two triangles with its closest points are what the
recursions call (`Dist`).

The pairs visited form a search tree (`descent`), and the two recursions are the branch-and-bound
searches of it (`distanceRec_eq`, `collideRec_eq`). Hence both are exact over all pairs of leaves.
-/

namespace OpenHRP.SSVTreeCollider

variable {V K P : Type*}

/-- A node of a collision tree: a leaf holds a primitive, an inner node its two children. -/
inductive AABBCollisionNode (V : Type*)
  | leaf (mAABB : V) (primitive : ℕ)
  | inner (mAABB : V) (neg pos : AABBCollisionNode V)

/-- The functions that the queries call. -/
structure Dist (V K P : Type*) where
  /-- `GetSize` of a node with this volume. -/
  size : V → K
  /-- `SsvSsvDist` of two nodes with these volumes. -/
  ssvSsvDist : V → V → K
  /-- `PrimDist`: the distance of two primitives and the closest points. -/
  primDist : ℕ → ℕ → K × P × P

/-- What a query has found so far. -/
structure Nearest (K P : Type*) where
  minD : K
  point0 : P
  point1 : P
  mId0 : ℕ
  mId1 : ℕ

namespace AABBCollisionNode

def mAABB : AABBCollisionNode V → V
  | leaf v _ => v
  | inner v _ _ => v

/-- The primitives at the leaves below a node. -/
def primitives : AABBCollisionNode V → List ℕ
  | leaf _ i => [i]
  | inner _ neg pos => neg.primitives ++ pos.primitives

/-- The nodes below a node, itself included. -/
def nodes : AABBCollisionNode V → List (AABBCollisionNode V)
  | leaf v i => [leaf v i]
  | inner v neg pos => inner v neg pos :: (neg.nodes ++ pos.nodes)

@[simp]
theorem mem_primitives_inner (v : V) (neg pos : AABBCollisionNode V) {i : ℕ} :
    i ∈ (inner v neg pos).primitives ↔ i ∈ neg.primitives ∨ i ∈ pos.primitives :=
  List.mem_append

theorem self_mem_nodes (b : AABBCollisionNode V) : b ∈ b.nodes := by
  cases b <;> exact List.mem_cons_self

theorem neg_nodes_subset (v : V) (neg pos : AABBCollisionNode V) :
    neg.nodes ⊆ (inner v neg pos).nodes :=
  fun _ hn ↦ List.mem_cons_of_mem _ (List.mem_append_left _ hn)

theorem pos_nodes_subset (v : V) (neg pos : AABBCollisionNode V) :
    pos.nodes ⊆ (inner v neg pos).nodes :=
  fun _ hn ↦ List.mem_cons_of_mem _ (List.mem_append_right _ hn)

end AABBCollisionNode

open AABBCollisionNode

section Queries

variable [LinearOrder K] (dist : Dist V K P)

/-- The branch of `_Distance` for two leaves: `PrimDist`, kept when it is smaller. -/
def distanceLeaf (i j : ℕ) (best : Nearest K P) : Nearest K P :=
  if (dist.primDist i j).1 < best.minD then
    { minD := (dist.primDist i j).1
      point0 := (dist.primDist i j).2.1
      point1 := (dist.primDist i j).2.2
      mId0 := i
      mId1 := j }
  else best

/-- `SSVTreeCollider::_Distance`. -/
def distanceRec : AABBCollisionNode V → AABBCollisionNode V → Nearest K P → Nearest K P
  | leaf v i, leaf w j, best =>
    if best.minD < dist.ssvSsvDist v w then best else distanceLeaf dist i j best
  | .inner v neg pos, leaf w j, best =>
    if best.minD < dist.ssvSsvDist v w then best
    else distanceRec pos (leaf w j) (distanceRec neg (leaf w j) best)
  | leaf v i, .inner w neg pos, best =>
    if best.minD < dist.ssvSsvDist v w then best
    else distanceRec (leaf v i) pos (distanceRec (leaf v i) neg best)
  | .inner v neg pos, .inner w neg' pos', best =>
    if best.minD < dist.ssvSsvDist v w then best
    else if dist.size w < dist.size v then
      distanceRec pos (.inner w neg' pos') (distanceRec neg (.inner w neg' pos') best)
    else distanceRec (.inner v neg pos) pos' (distanceRec (.inner v neg pos) neg' best)
  termination_by b0 b1 => sizeOf b0 + sizeOf b1

/-- `SSVTreeCollider::_Collide`: the primitives it stores when it returns true. -/
def collideRec (tolerance : K) : AABBCollisionNode V → AABBCollisionNode V → Option (ℕ × ℕ)
  | leaf v i, leaf w j =>
    if tolerance < dist.ssvSsvDist v w then none
    else if (dist.primDist i j).1 ≤ tolerance then some (i, j) else none
  | .inner v neg pos, leaf w j =>
    if tolerance < dist.ssvSsvDist v w then none
    else (collideRec tolerance neg (leaf w j)).or (collideRec tolerance pos (leaf w j))
  | leaf v i, .inner w neg pos =>
    if tolerance < dist.ssvSsvDist v w then none
    else (collideRec tolerance (leaf v i) neg).or (collideRec tolerance (leaf v i) pos)
  | .inner v neg pos, .inner w neg' pos' =>
    if tolerance < dist.ssvSsvDist v w then none
    else if dist.size w < dist.size v then
      (collideRec tolerance neg (.inner w neg' pos')).or
        (collideRec tolerance pos (.inner w neg' pos'))
    else (collideRec tolerance (.inner v neg pos) neg').or
      (collideRec tolerance (.inner v neg pos) pos')
  termination_by b0 b1 => sizeOf b0 + sizeOf b1

/-- The state of a query that has found the pair `p`. -/
def nearest (p : ℕ × ℕ) : Nearest K P where
  minD := (dist.primDist p.1 p.2).1
  point0 := (dist.primDist p.1 p.2).2.1
  point1 := (dist.primDist p.1 p.2).2.2
  mId0 := p.1
  mId1 := p.2

/-! ### The pairs visited -/

/-- The distance of a pair of primitives. -/
def pairDist (p : ℕ × ℕ) : K :=
  (dist.primDist p.1 p.2).1

/-- The pairs of nodes that the two recursions can visit, with the distances of their volumes. -/
def descent : AABBCollisionNode V → AABBCollisionNode V → SearchTree K (ℕ × ℕ)
  | leaf v i, leaf w j => .leaf (dist.ssvSsvDist v w) (i, j)
  | .inner v neg pos, leaf w j =>
    .branch (dist.ssvSsvDist v w) (descent neg (leaf w j)) (descent pos (leaf w j))
  | leaf v i, .inner w neg pos =>
    .branch (dist.ssvSsvDist v w) (descent (leaf v i) neg) (descent (leaf v i) pos)
  | .inner v neg pos, .inner w neg' pos' =>
    if dist.size w < dist.size v then
      .branch (dist.ssvSsvDist v w) (descent neg (.inner w neg' pos'))
        (descent pos (.inner w neg' pos'))
    else
      .branch (dist.ssvSsvDist v w) (descent (.inner v neg pos) neg')
        (descent (.inner v neg pos) pos')
  termination_by b0 b1 => sizeOf b0 + sizeOf b1

/-- The candidates of the search are the pairs of primitives, in whatever order the trees are
descended. -/
theorem mem_candidates_descent (b0 b1 : AABBCollisionNode V) (p : ℕ × ℕ) :
    p ∈ (descent dist b0 b1).candidates ↔ p.1 ∈ b0.primitives ∧ p.2 ∈ b1.primitives := by
  induction b0, b1 using descent.induct dist with
  | case1 v i w j => simp [descent, SearchTree.candidates, primitives, Prod.ext_iff]
  | case2 v neg pos w j ih₁ ih₂ =>
    rw [descent, SearchTree.candidates, List.mem_append, ih₁, ih₂, mem_primitives_inner,
      or_and_right]
  | case3 v i w neg pos ih₁ ih₂ =>
    rw [descent, SearchTree.candidates, List.mem_append, ih₁, ih₂, mem_primitives_inner,
      and_or_left]
  | case4 v neg pos w neg' pos' hsize ih₁ ih₂ =>
    rw [descent, if_pos hsize, SearchTree.candidates, List.mem_append, ih₁, ih₂, ← or_and_right,
      mem_primitives_inner v neg pos]
  | case5 v neg pos w neg' pos' hsize ih₁ ih₂ =>
    rw [descent, if_neg hsize, SearchTree.candidates, List.mem_append, ih₁, ih₂, ← and_or_left,
      mem_primitives_inner w neg' pos']

/-- `_Distance` is the branch-and-bound minimisation over the pairs visited. -/
theorem distanceRec_eq (b0 b1 : AABBCollisionNode V) (p : ℕ × ℕ) :
    distanceRec dist b0 b1 (nearest dist p) =
      nearest dist ((descent dist b0 b1).minimise (pairDist dist) p) := by
  induction b0, b1 using descent.induct dist generalizing p with
  | case1 v i w j =>
    rw [distanceRec, descent, SearchTree.minimise, apply_ite (nearest dist),
      apply_ite (nearest dist)]
    rfl
  | case2 v neg pos w j ih₁ ih₂ =>
    rw [distanceRec, descent, SearchTree.minimise, ih₁, ih₂]
    exact (apply_ite (nearest dist) _ _ _).symm
  | case3 v i w neg pos ih₁ ih₂ =>
    rw [distanceRec, descent, SearchTree.minimise, ih₁, ih₂]
    exact (apply_ite (nearest dist) _ _ _).symm
  | case4 v neg pos w neg' pos' hsize ih₁ ih₂ =>
    rw [distanceRec, descent, if_pos hsize, if_pos hsize, SearchTree.minimise, ih₁, ih₂]
    exact (apply_ite (nearest dist) _ _ _).symm
  | case5 v neg pos w neg' pos' hsize ih₁ ih₂ =>
    rw [distanceRec, descent, if_neg hsize, if_neg hsize, SearchTree.minimise, ih₁, ih₂]
    exact (apply_ite (nearest dist) _ _ _).symm

/-- `_Collide` is the branch-and-bound search within the tolerance over the pairs visited. -/
theorem collideRec_eq (tolerance : K) (b0 b1 : AABBCollisionNode V) :
    collideRec dist tolerance b0 b1 =
      (descent dist b0 b1).firstWithin (pairDist dist) tolerance := by
  induction b0, b1 using descent.induct dist with
  | case1 v i w j => rw [collideRec, descent, SearchTree.firstWithin]; rfl
  | case2 v neg pos w j ih₁ ih₂ => rw [collideRec, descent, SearchTree.firstWithin, ih₁, ih₂]
  | case3 v i w neg pos ih₁ ih₂ => rw [collideRec, descent, SearchTree.firstWithin, ih₁, ih₂]
  | case4 v neg pos w neg' pos' hsize ih₁ ih₂ =>
    rw [collideRec, descent, if_pos hsize, if_pos hsize, SearchTree.firstWithin, ih₁, ih₂]
  | case5 v neg pos w neg' pos' hsize ih₁ ih₂ =>
    rw [collideRec, descent, if_neg hsize, if_neg hsize, SearchTree.firstWithin, ih₁, ih₂]

/-- The volumes of two trees bound the distances below them: the distance of two nodes never
exceeds that of two primitives below. -/
def Encloses (b0 b1 : AABBCollisionNode V) : Prop :=
  ∀ n0 ∈ b0.nodes, ∀ n1 ∈ b1.nodes, ∀ i ∈ n0.primitives, ∀ j ∈ n1.primitives,
    dist.ssvSsvDist n0.mAABB n1.mAABB ≤ (dist.primDist i j).1

variable {dist}

theorem Encloses.mono {b0 b0' b1 b1' : AABBCollisionNode V} (h : Encloses dist b0 b1)
    (h0 : b0'.nodes ⊆ b0.nodes) (h1 : b1'.nodes ⊆ b1.nodes) : Encloses dist b0' b1' :=
  fun n0 hn0 n1 hn1 ↦ h n0 (h0 hn0) n1 (h1 hn1)

variable {b0 b1 : AABBCollisionNode V}

/-- The two nodes of the first call already bound all pairs below them. -/
theorem Encloses.le_pairDist (h : Encloses dist b0 b1) :
    ∀ p ∈ (descent dist b0 b1).candidates,
      dist.ssvSsvDist b0.mAABB b1.mAABB ≤ pairDist dist p := fun p hp ↦
  have hmem := (mem_candidates_descent dist b0 b1 p).1 hp
  h b0 b0.self_mem_nodes b1 b1.self_mem_nodes p.1 hmem.1 p.2 hmem.2

theorem Encloses.bounds (h : Encloses dist b0 b1) :
    (descent dist b0 b1).Bounds (pairDist dist) := by
  have hroot := h.le_pairDist
  induction b0, b1 using descent.induct dist with
  | case1 v i w j =>
    rw [descent] at hroot ⊢
    exact hroot (i, j) (List.mem_singleton_self _)
  | case2 v neg pos w j ih₁ ih₂ =>
    rw [descent] at hroot ⊢
    have h₁ := h.mono (neg_nodes_subset v neg pos) (List.Subset.refl _)
    have h₂ := h.mono (pos_nodes_subset v neg pos) (List.Subset.refl _)
    exact ⟨hroot, ih₁ h₁ h₁.le_pairDist, ih₂ h₂ h₂.le_pairDist⟩
  | case3 v i w neg pos ih₁ ih₂ =>
    rw [descent] at hroot ⊢
    have h₁ := h.mono (List.Subset.refl _) (neg_nodes_subset w neg pos)
    have h₂ := h.mono (List.Subset.refl _) (pos_nodes_subset w neg pos)
    exact ⟨hroot, ih₁ h₁ h₁.le_pairDist, ih₂ h₂ h₂.le_pairDist⟩
  | case4 v neg pos w neg' pos' hsize ih₁ ih₂ =>
    rw [descent, if_pos hsize] at hroot ⊢
    have h₁ := h.mono (neg_nodes_subset v neg pos) (List.Subset.refl _)
    have h₂ := h.mono (pos_nodes_subset v neg pos) (List.Subset.refl _)
    exact ⟨hroot, ih₁ h₁ h₁.le_pairDist, ih₂ h₂ h₂.le_pairDist⟩
  | case5 v neg pos w neg' pos' hsize ih₁ ih₂ =>
    rw [descent, if_neg hsize] at hroot ⊢
    have h₁ := h.mono (List.Subset.refl _) (neg_nodes_subset w neg' pos')
    have h₂ := h.mono (List.Subset.refl _) (pos_nodes_subset w neg' pos')
    exact ⟨hroot, ih₁ h₁ h₁.le_pairDist, ih₂ h₂ h₂.le_pairDist⟩

variable (dist) in
/-- A query has found the least distance of all pairs of primitives, a pair at this distance and its
closest points. -/
structure Exact (b0 b1 : AABBCollisionNode V) (best : Nearest K P) : Prop where
  isLeast :
    IsLeast {d | ∃ i ∈ b0.primitives, ∃ j ∈ b1.primitives, (dist.primDist i j).1 = d} best.minD
  mem0 : best.mId0 ∈ b0.primitives
  mem1 : best.mId1 ∈ b1.primitives
  attained : dist.primDist best.mId0 best.mId1 = (best.minD, best.point0, best.point1)

theorem exact_distanceRec (h : Encloses dist b0 b1) {i j : ℕ} (hi : i ∈ b0.primitives)
    (hj : j ∈ b1.primitives) : Exact dist b0 b1 (distanceRec dist b0 b1 (nearest dist (i, j))) := by
  rw [distanceRec_eq]
  set p := (descent dist b0 b1).minimise (pairDist dist) (i, j) with hp
  have hmem : p.1 ∈ b0.primitives ∧ p.2 ∈ b1.primitives := by
    rcases (descent dist b0 b1).minimise_eq_or_mem (pairDist dist) (i, j) with heq | hmem
    · rw [hp, heq]
      exact ⟨hi, hj⟩
    · exact (mem_candidates_descent dist b0 b1 p).1 hmem
  refine ⟨⟨⟨p.1, hmem.1, p.2, hmem.2, rfl⟩, ?_⟩, hmem.1, hmem.2, rfl⟩
  rintro d ⟨i', hi', j', hj', rfl⟩
  exact SearchTree.minimise_le h.bounds (i, j) (i', j')
    ((mem_candidates_descent dist b0 b1 _).2 ⟨hi', hj'⟩)

/-- `_Collide` returns true exactly when some pair is within the tolerance. -/
theorem isSome_collideRec_iff (h : Encloses dist b0 b1) {tolerance : K} :
    (collideRec dist tolerance b0 b1).isSome = true ↔
      ∃ i ∈ b0.primitives, ∃ j ∈ b1.primitives, (dist.primDist i j).1 ≤ tolerance := by
  rw [collideRec_eq, Option.isSome_iff_exists, SearchTree.exists_firstWithin_iff h.bounds]
  constructor
  · rintro ⟨p, hp, hle⟩
    obtain ⟨hi, hj⟩ := (mem_candidates_descent dist b0 b1 p).1 hp
    exact ⟨p.1, hi, p.2, hj, hle⟩
  · rintro ⟨i, hi, j, hj, hle⟩
    exact ⟨(i, j), (mem_candidates_descent dist b0 b1 _).2 ⟨hi, hj⟩, hle⟩

/-- **The queries are exact and agree.** Started from the distance of any pair of primitives,
`_Distance` ends with the least distance of all pairs and names a pair at this distance, and
`_Collide` returns true exactly when this distance is within the tolerance. -/
theorem queries_exact {b0 b1 : AABBCollisionNode V} (h : Encloses dist b0 b1) {i j : ℕ}
    (hi : i ∈ b0.primitives) (hj : j ∈ b1.primitives) :
    let best := distanceRec dist b0 b1 (nearest dist (i, j))
    Exact dist b0 b1 best ∧
      ∀ tolerance, (collideRec dist tolerance b0 b1).isSome = true ↔ best.minD ≤ tolerance := by
  intro best
  have hexact : Exact dist b0 b1 best := exact_distanceRec h hi hj
  refine ⟨hexact, fun tolerance ↦ (isSome_collideRec_iff h).trans ⟨?_, fun hle ↦ ?_⟩⟩
  · rintro ⟨i', hi', j', hj', hle⟩
    exact (hexact.isLeast.2 ⟨i', hi', j', hj', rfl⟩).trans hle
  · exact ⟨_, hexact.mem0, _, hexact.mem1, by rwa [hexact.attained]⟩

end Queries

/-- Two volumes are as far apart as the second falls short of 3. -/
def shortfall : Dist ℚ ℚ Unit where
  size := fun v ↦ v
  ssvSsvDist := fun _ w ↦ 3 - w
  primDist := fun i j ↦ (i + j + 1, (), ())

theorem queries_exact_shortfall :
    let b0 : AABBCollisionNode ℚ := .leaf 1 0
    let b1 : AABBCollisionNode ℚ := .inner 2 (.leaf 1 1) (.leaf 2 0)
    let best := distanceRec shortfall b0 b1 (nearest shortfall (0, 1))
    Encloses shortfall b0 b1 ∧ 0 ∈ b0.primitives ∧ 1 ∈ b1.primitives ∧
      Exact shortfall b0 b1 best ∧ ∀ tolerance,
        (collideRec shortfall tolerance b0 b1).isSome = true ↔ best.minD ≤ tolerance := by
  intro b0 b1 best
  have h : Encloses shortfall b0 b1 := by
    unfold Encloses
    decide +kernel
  have hi : 0 ∈ b0.primitives := by decide
  have hj : 1 ∈ b1.primitives := by decide
  exact ⟨h, hi, hj, queries_exact h hi hj⟩

/-! ### The entry points -/

/-- A collision tree as it is stored: an array of its nodes, the root first. -/
structure AABBCollisionTree (V : Type*) where
  root : AABBCollisionNode V
  rest : List (AABBCollisionNode V)
  stored : (root :: rest).Perm root.nodes

/-- The primitive of the first leaf of an array of nodes. -/
def firstPrimitive : List (AABBCollisionNode V) → Option ℕ
  | [] => none
  | leaf _ i :: _ => some i
  | .inner _ _ _ :: nodes => firstPrimitive nodes

theorem mem_of_firstPrimitive {nodes : List (AABBCollisionNode V)} {i : ℕ}
    (h : firstPrimitive nodes = some i) : ∃ v, leaf v i ∈ nodes := by
  induction nodes with
  | nil => cases h
  | cons n nodes ih =>
    cases n with
    | leaf v j =>
      cases h
      exact ⟨v, List.mem_cons_self⟩
    | inner v neg pos =>
      obtain ⟨w, hw⟩ := ih h
      exact ⟨w, List.mem_cons_of_mem _ hw⟩

theorem exists_firstPrimitive {nodes : List (AABBCollisionNode V)} {v : V} {i : ℕ}
    (h : leaf v i ∈ nodes) : ∃ j, firstPrimitive nodes = some j := by
  induction nodes with
  | nil => cases h
  | cons n nodes ih =>
    cases n with
    | leaf w j => exact ⟨j, rfl⟩
    | inner w neg pos =>
      rcases List.mem_cons.1 h with h | h
      · cases h
      · exact ih h

namespace AABBCollisionNode

theorem leaf_mem_nodes_iff {b : AABBCollisionNode V} {i : ℕ} :
    (∃ v, leaf v i ∈ b.nodes) ↔ i ∈ b.primitives := by
  induction b with
  | leaf v j => simp [nodes, primitives]
  | inner v neg pos ih₁ ih₂ => simp [nodes, exists_or, ih₁, ih₂]

theorem exists_mem_primitives (b : AABBCollisionNode V) : ∃ i, i ∈ b.primitives := by
  induction b with
  | leaf v i => exact ⟨i, List.mem_singleton_self i⟩
  | inner v neg pos ih₁ _ =>
    obtain ⟨i, hi⟩ := ih₁
    exact ⟨i, List.mem_append_left _ hi⟩

end AABBCollisionNode

/-- Every tree has a first leaf, and it is one of its leaves. -/
theorem AABBCollisionTree.exists_first (t : AABBCollisionTree V) :
    ∃ i ∈ t.root.primitives, firstPrimitive (t.root :: t.rest) = some i := by
  obtain ⟨j, hj⟩ := t.root.exists_mem_primitives
  obtain ⟨v, hv⟩ := leaf_mem_nodes_iff.2 hj
  obtain ⟨i, hi⟩ := exists_firstPrimitive (t.stored.mem_iff.2 hv)
  obtain ⟨w, hw⟩ := mem_of_firstPrimitive hi
  exact ⟨i, leaf_mem_nodes_iff.1 ⟨w, t.stored.mem_iff.1 hw⟩, hi⟩

variable [LinearOrder K] (dist : Dist V K P)

/-- `SSVTreeCollider::Distance`, before it moves the closest points to world coordinates: the query
starts from the first leaves of the two arrays. -/
def distance (tree0 tree1 : AABBCollisionTree V) : Option (Nearest K P) :=
  match firstPrimitive (tree0.root :: tree0.rest), firstPrimitive (tree1.root :: tree1.rest) with
  | some mId0, some mId1 =>
    some (distanceRec dist tree0.root tree1.root (nearest dist (mId0, mId1)))
  | _, _ => none

/-- **The query is total.** The distance query of two whole trees has a leaf pair to start from and
is exact. -/
theorem exists_distance {tree0 tree1 : AABBCollisionTree V}
    (h : Encloses dist tree0.root tree1.root) :
    ∃ best, distance dist tree0 tree1 = some best ∧ Exact dist tree0.root tree1.root best := by
  obtain ⟨i, hi, hfirst0⟩ := tree0.exists_first
  obtain ⟨j, hj, hfirst1⟩ := tree1.exists_first
  exact ⟨_, by rw [distance, hfirst0, hfirst1], exact_distanceRec h hi hj⟩

theorem exists_distance_shortfall :
    let tree0 : AABBCollisionTree ℚ := ⟨.leaf 1 0, [], .refl _⟩
    let tree1 : AABBCollisionTree ℚ :=
      ⟨.inner 2 (.leaf 1 1) (.leaf 2 0), [.leaf 1 1, .leaf 2 0], .refl _⟩
    ∃ best, distance shortfall tree0 tree1 = some best ∧
      Exact shortfall tree0.root tree1.root best :=
  exists_distance shortfall (by
    unfold Encloses
    decide +kernel)

end OpenHRP.SSVTreeCollider
