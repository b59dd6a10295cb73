import OpenHRP.Foundations.LinkedChain
import Mathlib.Order.Lattice

/-!
# Roadmaps

The planner's graphs. A `RoadmapNode` is a configuration with the lists of its parents and of its
children; a `Roadmap` is a list of nodes and a count of edges. Nodes and roadmaps are shared by
pointer in the source, so both live in a `Heap` and are named by their addresses; `newNode` is the
only way to obtain a node.

`Heap.link reverse` is the first link of a node the way a tree is read back: its first parent in a
tree grown forwards, its first child in one grown in reverse. The lemmas about `Heap.grow`, a tree
with one more node, say what each of the two links of each node becomes.
-/

namespace OpenHRP.PathEngine

abbrev NodePtr := ℕ

abbrev RoadmapPtr := ℕ

/-- A node of a roadmap. -/
structure RoadmapNode (C : Type*) where
  parents : List NodePtr
  children : List NodePtr
  pos : C

/-- A roadmap. -/
structure Roadmap where
  nodes : List NodePtr
  nEdges : ℕ

/-- The memory the planner works on: `size` nodes allocated so far, and the roadmaps. -/
structure Heap (C : Type*) where
  size : ℕ
  node : NodePtr → RoadmapNode C
  roadmap : RoadmapPtr → Roadmap

variable {C K : Type*}

namespace RoadmapNode

def addParent (n : RoadmapNode C) (node : NodePtr) : RoadmapNode C :=
  { n with parents := n.parents ++ [node] }

def addChild (n : RoadmapNode C) (node : NodePtr) : RoadmapNode C :=
  { n with children := n.children ++ [node] }

/-- The parent with an index, null when the index is out of range. -/
def parent (n : RoadmapNode C) (index : ℕ) : Option NodePtr :=
  n.parents[index]?

/-- The child with an index, null when the index is out of range. -/
def child (n : RoadmapNode C) (index : ℕ) : Option NodePtr :=
  n.children[index]?

end RoadmapNode

namespace Heap

def position (h : Heap C) (n : NodePtr) : C :=
  (h.node n).pos

/-- A fresh node at `pos`, without edges and in no roadmap. -/
def newNode (h : Heap C) (pos : C) : Heap C × NodePtr :=
  ({ h with size := h.size + 1
            node := Function.update h.node h.size { parents := [], children := [], pos := pos } },
    h.size)

/-- `Roadmap::addNode`. -/
def addNode (h : Heap C) (r : RoadmapPtr) (node : NodePtr) : Heap C :=
  { h with roadmap := Function.update h.roadmap r
            { h.roadmap r with nodes := (h.roadmap r).nodes ++ [node] } }

/-- `Roadmap::addEdge`. -/
def addEdge (h : Heap C) (r : RoadmapPtr) (source target : NodePtr) : Heap C :=
  let node := Function.update h.node source ((h.node source).addChild target)
  let node := Function.update node target ((node target).addParent source)
  { h with node := node
           roadmap := Function.update h.roadmap r
            { h.roadmap r with nEdges := (h.roadmap r).nEdges + 1 } }

/-- `Roadmap::integrate`: the nodes of `r` move to another roadmap, without their edge count. -/
def integrate (h : Heap C) (r rdmp : RoadmapPtr) : Heap C :=
  let h := (h.roadmap r).nodes.foldl (fun h n ↦ h.addNode rdmp n) h
  { h with roadmap := Function.update h.roadmap r { h.roadmap r with nodes := [] } }

/-- `Roadmap::lastAddedNode`: null when the roadmap has no node. -/
def lastAddedNode (h : Heap C) (r : RoadmapPtr) : Option NodePtr :=
  (h.roadmap r).nodes.getLast?

/-- `Roadmap::findNearestNode`: the first of the nodes at the least distance to `cfg`, with this
distance; null when the roadmap has no node. -/
def findNearestNode [LT K] [DecidableLT K] (distance : C → C → K) (h : Heap C) (r : RoadmapPtr)
    (cfg : C) : Option (NodePtr × K) :=
  match (h.roadmap r).nodes with
  | [] => none
  | node :: nodes =>
    some (nodes.foldl
      (fun best n ↦
        let d := distance (h.position n) cfg
        if d < best.2 then (n, d) else best)
      (node, distance (h.position node) cfg))

/-- The distance found is that of the node found, and no node of the roadmap is closer. -/
theorem findNearestNode_spec [LinearOrder K] {distance : C → C → K} {h : Heap C} {r : RoadmapPtr}
    {cfg : C} {node : NodePtr} {d : K} (hnear : h.findNearestNode distance r cfg = some (node, d)) :
    node ∈ (h.roadmap r).nodes ∧ d = distance (h.position node) cfg ∧
      ∀ n ∈ (h.roadmap r).nodes, d ≤ distance (h.position n) cfg := by
  have hfold : ∀ (nodes : List NodePtr) (best : NodePtr × K),
      best.2 = distance (h.position best.1) cfg →
      let least := nodes.foldl (fun best n ↦
        if distance (h.position n) cfg < best.2 then (n, distance (h.position n) cfg)
        else best) best
      least.1 ∈ best.1 :: nodes ∧ least.2 = distance (h.position least.1) cfg ∧
        ∀ n ∈ best.1 :: nodes, least.2 ≤ distance (h.position n) cfg := by
    intro nodes
    induction nodes with
    | nil => exact fun best hbest ↦ ⟨List.mem_cons_self, hbest, by simp [hbest]⟩
    | cons n nodes ih =>
      intro best hbest
      rw [List.foldl_cons]
      split
      · next hlt =>
        obtain ⟨hmem, heq, hall⟩ := ih (n, distance (h.position n) cfg) rfl
        refine ⟨List.mem_cons_of_mem _ hmem, heq, List.forall_mem_cons.2 ⟨?_, hall⟩⟩
        exact (hall n List.mem_cons_self).trans (hbest ▸ hlt.le)
      · next hnot =>
        obtain ⟨hmem, heq, hall⟩ := ih best hbest
        obtain ⟨hle, hall⟩ := List.forall_mem_cons.1 hall
        refine ⟨List.cons_subset_cons _ (List.subset_cons_self n nodes) hmem, heq,
          List.forall_mem_cons.2 ⟨hle, List.forall_mem_cons.2 ⟨?_, hall⟩⟩⟩
        exact hle.trans (hbest ▸ not_lt.1 hnot)
  rw [findNearestNode] at hnear
  split at hnear
  · cases hnear
  · next first rest heq =>
    have hnearest := hfold rest (first, distance (h.position first) cfg) rfl
    rwa [Option.some.inj hnear, ← heq] at hnearest

theorem foldl_addNode (h : Heap C) (r : RoadmapPtr) (nodes : List NodePtr) :
    nodes.foldl (fun h n ↦ h.addNode r n) h =
      { h with roadmap := Function.update h.roadmap r
                { h.roadmap r with nodes := (h.roadmap r).nodes ++ nodes } } := by
  induction nodes generalizing h with
  | nil => simp
  | cons n nodes ih =>
    rw [List.foldl_cons, ih]
    simp [addNode]

/-- After an integration the nodes are where they were, and `rdmp` has those of both. -/
theorem integrate_eq (h : Heap C) {r rdmp : RoadmapPtr} (hne : rdmp ≠ r) :
    (h.integrate r rdmp).size = h.size ∧ (h.integrate r rdmp).node = h.node ∧
      ((h.integrate r rdmp).roadmap rdmp).nodes =
        (h.roadmap rdmp).nodes ++ (h.roadmap r).nodes ∧
      ((h.integrate r rdmp).roadmap r).nodes = [] := by
  rw [integrate, foldl_addNode]
  exact ⟨rfl, rfl, by simp [hne], by simp⟩

/-! ### Growing a tree by one node -/

/-- The first link of a node, towards the root of its tree: a parent in a tree grown forwards, a
child in a tree grown in reverse. -/
def link (h : Heap C) (reverse : Bool) (n : NodePtr) : Option NodePtr :=
  if reverse then (h.node n).child 0 else (h.node n).parent 0

/-- A tree with a new node at `q`, joined to `minNode` by an edge that leads away from it, or
towards it when the tree is grown in reverse. -/
def grow (h : Heap C) (tree : RoadmapPtr) (minNode : NodePtr) (q : C) (reverse : Bool) : Heap C :=
  let (h, newNode) := h.newNode q
  let h := h.addNode tree newNode
  if reverse then h.addEdge tree newNode minNode else h.addEdge tree minNode newNode

variable (h : Heap C) {tree : RoadmapPtr} {minNode : NodePtr} {q : C} {reverse : Bool}

@[simp]
theorem size_grow : (h.grow tree minNode q reverse).size = h.size + 1 := by
  cases reverse <;> rfl

@[simp]
theorem nodes_grow_self :
    ((h.grow tree minNode q reverse).roadmap tree).nodes = (h.roadmap tree).nodes ++ [h.size] := by
  cases reverse <;> simp [grow, addEdge, addNode, newNode]

theorem nodes_grow_of_ne {r : RoadmapPtr} (hr : r ≠ tree) :
    ((h.grow tree minNode q reverse).roadmap r).nodes = (h.roadmap r).nodes := by
  cases reverse <;> simp [grow, addEdge, addNode, newNode, hr]

/-- The nodes of the grown heap: the new one has the edge, `minNode` the other end of it. -/
theorem node_grow (hmin : minNode ≠ h.size) (n : NodePtr) :
    (h.grow tree minNode q reverse).node n =
      if n = h.size then
        if reverse then ⟨[], [minNode], q⟩ else ⟨[minNode], [], q⟩
      else if n = minNode then
        if reverse then (h.node n).addParent h.size else (h.node n).addChild h.size
      else h.node n := by
  by_cases hn : n = h.size
  · subst hn
    cases reverse
    · show Function.update (Function.update _ _ _) _ _ h.size = _
      simp [addNode, RoadmapNode.addParent, Function.update_of_ne hmin.symm]
    · show Function.update (Function.update _ _ _) _ _ h.size = _
      simp [addNode, RoadmapNode.addChild, Function.update_of_ne hmin.symm]
  · by_cases hm : n = minNode
    · cases reverse <;> simp [grow, addEdge, newNode, addNode, hm, hmin]
    · cases reverse <;> simp [grow, addEdge, newNode, addNode, hm, hn]

theorem position_grow_self (hmin : minNode ≠ h.size) :
    (h.grow tree minNode q reverse).position h.size = q := by
  rw [position, h.node_grow hmin, if_pos rfl]
  cases reverse <;> rfl

theorem position_grow_of_ne (hmin : minNode ≠ h.size) {n : NodePtr} (hn : n ≠ h.size) :
    (h.grow tree minNode q reverse).position n = h.position n := by
  rw [position, h.node_grow hmin, if_neg hn]
  split
  · cases reverse <;> rfl
  · rfl

theorem link_grow_self (hmin : minNode ≠ h.size) :
    (h.grow tree minNode q reverse).link reverse h.size = some minNode := by
  rw [link, h.node_grow hmin, if_pos rfl]
  cases reverse <;> rfl

/-- The old nodes keep the link that their tree is read back along. -/
theorem link_grow_of_ne (hmin : minNode ≠ h.size) {n : NodePtr} (hn : n ≠ h.size) :
    (h.grow tree minNode q reverse).link reverse n = h.link reverse n := by
  rw [link, h.node_grow hmin, if_neg hn, link]
  by_cases hm : n = minNode
  · rw [if_pos hm]
    cases reverse <;> rfl
  · rw [if_neg hm]

/-- The nodes of other trees keep both links. -/
theorem link_grow_other (hmin : minNode ≠ h.size) {n : NodePtr} (hn : n ≠ h.size)
    (hne : n ≠ minNode) (r : Bool) :
    (h.grow tree minNode q reverse).link r n = h.link r n := by
  rw [link, h.node_grow hmin, if_neg hn, if_neg hne, link]

omit h in
private theorem getElem?_zero_concat {l : List NodePtr} {x m : NodePtr}
    (hget : (l ++ [x])[0]? = some m) : m = x ∨ l[0]? = some m := by
  cases l with
  | nil => exact .inl (Option.some.inj hget).symm
  | cons => exact .inr hget

/-- Every link of the grown heap is an old one or joins the new node to `minNode`. -/
theorem link_grow_cases (hmin : minNode ≠ h.size) {n m : NodePtr} {r : Bool}
    (hlink : (h.grow tree minNode q reverse).link r n = some m) :
    n = h.size ∧ m = minNode ∨ n = minNode ∧ m = h.size ∨ n ≠ h.size ∧ h.link r n = some m := by
  rw [link, h.node_grow hmin] at hlink
  by_cases hn : n = h.size
  · left
    rw [if_pos hn] at hlink
    cases reverse <;> cases r <;>
      simp_all [RoadmapNode.parent, RoadmapNode.child]
  · right
    rw [if_neg hn] at hlink
    by_cases hm : n = minNode
    · rw [if_pos hm] at hlink
      cases reverse <;> cases r
      · exact .inr ⟨hn, hlink⟩
      · exact (getElem?_zero_concat hlink).imp (⟨hm, ·⟩) (⟨hn, ·⟩)
      · exact (getElem?_zero_concat hlink).imp (⟨hm, ·⟩) (⟨hn, ·⟩)
      · exact .inr ⟨hn, hlink⟩
    · rw [if_neg hm] at hlink
      exact .inr ⟨hn, hlink⟩

end Heap

end OpenHRP.PathEngine
