import OpenHRP.Foundations.Runs
import OpenHRP.Planner.Roadmap
import Mathlib.Data.List.Count

/-!
# The books of a roadmap

An edge of a roadmap is recorded three times: as an entry of the children of its source, as an entry
of the parents of its target, and in the count of the roadmap. The first two agree in every run of
the operations on roadmaps (`Inv.step`). The count does not always: `removeEdge` leaves it as it is,
`integrate` leaves it behind, and `addNode` and `addEdge` do not look whether the roadmap has the
node and its edges already. `Accounted` says which steps keep it right.
-/

namespace OpenHRP.PathEngine

variable {C : Type*}

namespace RoadmapNode

/-- `RoadmapNode::removeParent`. -/
def removeParent (n : RoadmapNode C) (node : NodePtr) : RoadmapNode C × Bool :=
  if node ∈ n.parents then ({ n with parents := n.parents.erase node }, true) else (n, false)

/-- `RoadmapNode::removeChild`. -/
def removeChild (n : RoadmapNode C) (node : NodePtr) : RoadmapNode C × Bool :=
  if node ∈ n.children then ({ n with children := n.children.erase node }, true) else (n, false)

end RoadmapNode

namespace Heap

/-- `Roadmap::removeEdge`. -/
def removeEdge (h : Heap C) (source target : NodePtr) : Heap C × Bool :=
  match (h.node source).removeChild target with
  | (n, true) =>
    let node := Function.update h.node source n
    match (node target).removeParent source with
    | (m, removed) => ({ h with node := Function.update node target m }, removed)
  | (n, false) => ({ h with node := Function.update h.node source n }, false)

/-- `Roadmap::tryConnection`, with the mobility's `isReachable` and `isReversible`. -/
def tryConnection (isReachable : C → C → Bool) (isReversible : Bool) (h : Heap C) (r : RoadmapPtr)
    (source target : NodePtr) (tryReverse : Bool) : Heap C :=
  let h :=
    if isReachable (h.position source) (h.position target) then
      let h := h.addEdge r source target
      if tryReverse && isReversible then h.addEdge r target source else h
    else h
  if tryReverse && !isReversible then
    if isReachable (h.position target) (h.position source) then h.addEdge r target source else h
  else h

/-- `Roadmap::clear`. -/
def clear (h : Heap C) (r : RoadmapPtr) : Heap C :=
  { h with roadmap := Function.update h.roadmap r { nodes := [], nEdges := 0 } }

/-- No node and no roadmap is in use. -/
def blank (cfg : C) : Heap C where
  size := 0
  node := fun _ ↦ { parents := [], children := [], pos := cfg }
  roadmap := fun _ ↦ { nodes := [], nEdges := 0 }

/-- The child entries of the nodes of a roadmap. -/
def childEntries (h : Heap C) (r : RoadmapPtr) : ℕ :=
  ((h.roadmap r).nodes.map fun n ↦ (h.node n).children.length).sum

/-! ### What the operations change -/

section Operations

variable (h : Heap C) (r : RoadmapPtr) (source target n : NodePtr)

theorem children_addEdge : ((h.addEdge r source target).node n).children =
    if n = source then (h.node n).children ++ [target] else (h.node n).children := by
  rcases eq_or_ne n target with rfl | ht <;> rcases eq_or_ne n source with rfl | hs <;>
    simp [addEdge, RoadmapNode.addChild, RoadmapNode.addParent, *]

theorem parents_addEdge : ((h.addEdge r source target).node n).parents =
    if n = target then (h.node n).parents ++ [source] else (h.node n).parents := by
  rcases eq_or_ne n target with rfl | ht <;> rcases eq_or_ne n source with rfl | hs <;>
    simp [addEdge, RoadmapNode.addChild, RoadmapNode.addParent, *]

theorem position_addEdge : (h.addEdge r source target).position = h.position := by
  funext n
  rcases eq_or_ne n target with rfl | ht <;> rcases eq_or_ne n source with rfl | hs <;>
    simp [position, addEdge, RoadmapNode.addChild, RoadmapNode.addParent, *]

theorem roadmap_addEdge (r' : RoadmapPtr) : (h.addEdge r source target).roadmap r' =
    if r' = r then { h.roadmap r with nEdges := (h.roadmap r).nEdges + 1 } else h.roadmap r' := by
  rcases eq_or_ne r' r with rfl | hr <;> simp [addEdge, *]

theorem nodes_addEdge (r' : RoadmapPtr) :
    ((h.addEdge r source target).roadmap r').nodes = (h.roadmap r').nodes := by
  rw [roadmap_addEdge]
  split
  · next hr => rw [hr]
  · rfl

variable {h source target}

theorem removeEdge_of_notMem (hmem : target ∉ (h.node source).children) :
    h.removeEdge source target = (h, false) := by
  rw [removeEdge, RoadmapNode.removeChild, if_neg hmem]
  simp

/-- An edge that is there is removed on both sides. -/
theorem removeEdge_of_mem (hmem : target ∈ (h.node source).children) :
    (h.removeEdge source target).1.node =
      let node := Function.update h.node source
        { h.node source with children := (h.node source).children.erase target }
      Function.update node target
        { node target with parents := (node target).parents.erase source } := by
  rw [removeEdge, RoadmapNode.removeChild, if_pos hmem]
  dsimp only [RoadmapNode.removeParent]
  split
  · rfl
  · next hnot => rw [List.erase_of_not_mem hnot]

theorem children_removeEdge (hmem : target ∈ (h.node source).children) :
    ((h.removeEdge source target).1.node n).children =
      if n = source then (h.node n).children.erase target else (h.node n).children := by
  rw [removeEdge_of_mem hmem]
  rcases eq_or_ne n target with rfl | ht <;> rcases eq_or_ne n source with rfl | hs <;> simp [*]

theorem parents_removeEdge (hmem : target ∈ (h.node source).children) :
    ((h.removeEdge source target).1.node n).parents =
      if n = target then (h.node n).parents.erase source else (h.node n).parents := by
  rw [removeEdge_of_mem hmem]
  rcases eq_or_ne n target with rfl | ht <;> rcases eq_or_ne n source with rfl | hs <;> simp [*]

theorem removeEdge_rest (h : Heap C) (source target : NodePtr) :
    (h.removeEdge source target).1.size = h.size ∧
    (h.removeEdge source target).1.roadmap = h.roadmap := by
  rw [removeEdge]
  split <;> exact ⟨rfl, rfl⟩

/-- The nodes of the roadmaps after an integration. -/
theorem roadmap_integrate {r rdmp : RoadmapPtr} (hne : r ≠ rdmp ∨ (h.roadmap r).nodes = [])
    (r' : RoadmapPtr) :
    (h.integrate r rdmp).roadmap r' =
      if r' = r then { h.roadmap r with nodes := [] }
      else if r' = rdmp then
        { h.roadmap rdmp with nodes := (h.roadmap rdmp).nodes ++ (h.roadmap r).nodes }
      else h.roadmap r' := by
  rw [integrate, foldl_addNode]
  rcases eq_or_ne r' r with rfl | hr
  · rcases eq_or_ne r' rdmp with rfl | hrdmp
    · simp [hne.resolve_left (fun h ↦ h rfl)]
    · simp [hrdmp]
  · rcases eq_or_ne r' rdmp with rfl | hrdmp
    · simp [hr]
    · simp [hr, hrdmp]

end Operations

/-! ### The two records of the nodes -/

/-- The nodes of the roadmaps and the ends of the edges exist, and the two records that nodes keep
of their edges agree. -/
structure Linked (h : Heap C) : Prop where
  node_lt : ∀ r, ∀ n ∈ (h.roadmap r).nodes, n < h.size
  edge_lt : ∀ a, ∀ b ∈ (h.node a).children, a < h.size ∧ b < h.size
  adjacent : ∀ a b, (h.node a).children.count b = (h.node b).parents.count a

/-- The count of each roadmap is that of the child entries of its nodes. -/
def Accounts (h : Heap C) : Prop :=
  ∀ r, (h.roadmap r).nEdges = h.childEntries r

/-- The roadmap `r` has the node `n`, once, and no other roadmap has it. -/
def Owns (h : Heap C) (r : RoadmapPtr) (n : NodePtr) : Prop :=
  ∀ r', (h.roadmap r').nodes.count n = if r' = r then 1 else 0

theorem linked_blank (cfg : C) : (blank cfg).Linked :=
  ⟨nofun, nofun, fun _ _ ↦ rfl⟩

theorem accounts_blank (cfg : C) : (blank cfg).Accounts :=
  fun _ ↦ rfl

variable {h h' : Heap C} {r rdmp : RoadmapPtr} {source target n : NodePtr}

theorem Linked.newNode (hl : h.Linked) (pos : C) : (h.newNode pos).1.Linked where
  node_lt r n hn := (hl.node_lt r n hn).trans h.size.lt_succ_self
  edge_lt a b hb := by
    rcases eq_or_ne a h.size with rfl | ha
    · simp [Heap.newNode] at hb
    · have hold : b ∈ (h.node a).children := by simpa [Heap.newNode, ha] using hb
      exact (hl.edge_lt a b hold).imp (·.trans h.size.lt_succ_self) (·.trans h.size.lt_succ_self)
  adjacent a b := by
    -- no edge of the old nodes leads to the new one
    have hnone : (h.node a).children.count h.size = 0 :=
      List.count_eq_zero.2 fun hmem ↦ lt_irrefl _ (hl.edge_lt a _ hmem).2
    have hnone' : (h.node b).parents.count h.size = 0 := by
      rw [← hl.adjacent]
      exact List.count_eq_zero.2 fun hmem ↦ lt_irrefl _ (hl.edge_lt _ b hmem).1
    rcases eq_or_ne a h.size with rfl | ha <;> rcases eq_or_ne b h.size with rfl | hb
    · simp [Heap.newNode]
    · simp [Heap.newNode, hb, hnone']
    · simp [Heap.newNode, ha, hnone]
    · simp [Heap.newNode, ha, hb, hl.adjacent]

/-- Operations that leave the nodes alone. -/
theorem Linked.of_node (hl : h.Linked) (hsize : h'.size = h.size) (hnode : h'.node = h.node)
    (hlt : ∀ r, ∀ n ∈ (h'.roadmap r).nodes, n < h.size) : h'.Linked where
  node_lt r n hn := hsize ▸ hlt r n hn
  edge_lt := by
    rw [hsize, hnode]
    exact hl.edge_lt
  adjacent := by
    rw [hnode]
    exact hl.adjacent

theorem Linked.addEdge (hl : h.Linked) (hsource : source < h.size) (htarget : target < h.size) :
    (h.addEdge r source target).Linked where
  node_lt r' n hn := by
    rw [nodes_addEdge] at hn
    exact hl.node_lt r' n hn
  edge_lt a b hb := by
    rw [children_addEdge] at hb
    split at hb
    · next ha =>
      rcases List.mem_append.1 hb with hb | hb
      · exact hl.edge_lt a b hb
      · rw [List.mem_singleton.1 hb, ha]
        exact ⟨hsource, htarget⟩
    · exact hl.edge_lt a b hb
  adjacent a b := by
    rw [children_addEdge, parents_addEdge]
    have hab := hl.adjacent a b
    split <;> split <;> simp_all [List.count_append, eq_comm]

theorem Linked.removeEdge (hl : h.Linked) : (h.removeEdge source target).1.Linked := by
  by_cases hmem : target ∈ (h.node source).children
  · obtain ⟨hsize, hroadmap⟩ := removeEdge_rest h source target
    constructor
    · rw [hsize, hroadmap]
      exact hl.node_lt
    · intro a b hb
      rw [hsize]
      rw [children_removeEdge a hmem] at hb
      split at hb
      · exact hl.edge_lt a b (List.mem_of_mem_erase hb)
      · exact hl.edge_lt a b hb
    · intro a b
      rw [children_removeEdge a hmem, parents_removeEdge b hmem]
      have hab := hl.adjacent a b
      split <;> split <;> simp_all [eq_comm]
  · rwa [removeEdge_of_notMem hmem]

/-! ### The count -/

theorem sum_map_add_count (nodes : List NodePtr) (f : NodePtr → ℕ) (n : NodePtr) :
    (nodes.map fun m ↦ if m = n then f m + 1 else f m).sum = (nodes.map f).sum + nodes.count n := by
  induction nodes with
  | nil => rfl
  | cons m nodes ih =>
    rw [List.map_cons, List.sum_cons, List.map_cons, List.sum_cons, ih, List.count_cons]
    split <;> split <;> simp_all <;> omega

theorem childEntries_addEdge (h : Heap C) (r : RoadmapPtr) (source target : NodePtr)
    (r' : RoadmapPtr) : (h.addEdge r source target).childEntries r' =
      h.childEntries r' + (h.roadmap r').nodes.count source := by
  rw [childEntries, nodes_addEdge, childEntries, ← sum_map_add_count]
  congr 2
  funext n
  rw [children_addEdge]
  split
  · rw [List.length_append, List.length_singleton]
  · rfl

theorem Accounts.addEdge (ha : h.Accounts) (howns : h.Owns r source) :
    (h.addEdge r source target).Accounts := by
  intro r'
  rw [childEntries_addEdge, howns r', roadmap_addEdge]
  split
  · next hr => rw [hr, ha r]
  · exact ha r'

theorem Owns.addEdge (howns : h.Owns r n) (r' : RoadmapPtr) :
    (h.addEdge r' source target).Owns r n := by
  intro r''
  rw [nodes_addEdge]
  exact howns r''

end Heap

/-! ### Runs -/

/-- The operations on roadmaps and their nodes. -/
inductive RoadmapOp (C : Type*)
  | newNode (pos : C)
  | addNode (r : RoadmapPtr) (node : NodePtr)
  | addEdge (r : RoadmapPtr) (source target : NodePtr)
  | removeEdge (r : RoadmapPtr) (source target : NodePtr)
  | tryConnection (r : RoadmapPtr) (source target : NodePtr) (tryReverse : Bool)
  | integrate (r rdmp : RoadmapPtr)
  | clear (r : RoadmapPtr)

namespace RoadmapOp

variable (isReachable : C → C → Bool) (isReversible : Bool)

/-- What an operation does. -/
def step (h : Heap C) : RoadmapOp C → Heap C
  | newNode pos => (h.newNode pos).1
  | addNode r node => h.addNode r node
  | addEdge r source target => h.addEdge r source target
  | removeEdge _ source target => (h.removeEdge source target).1
  | tryConnection r source target tryReverse =>
    h.tryConnection isReachable isReversible r source target tryReverse
  | integrate r rdmp => h.integrate r rdmp
  | clear r => h.clear r

/-- The nodes that an operation is given exist, and the operation returns: a roadmap with nodes that
is integrated into itself would grow for as long as its nodes are counted. -/
def Runs (h : Heap C) : RoadmapOp C → Prop
  | newNode _ => True
  | addNode _ node => node < h.size
  | addEdge _ source target => source < h.size ∧ target < h.size
  | removeEdge _ source target => source < h.size ∧ target < h.size
  | tryConnection _ source target _ => source < h.size ∧ target < h.size
  | integrate r rdmp => r ≠ rdmp ∨ (h.roadmap r).nodes = []
  | clear _ => True

instance decidableRuns (h : Heap C) : ∀ op : RoadmapOp C, Decidable (op.Runs h)
  | newNode _ | clear _ => inferInstanceAs (Decidable True)
  | addNode _ node => inferInstanceAs (Decidable (node < h.size))
  | addEdge _ source target | removeEdge _ source target | tryConnection _ source target _ =>
    inferInstanceAs (Decidable (source < h.size ∧ target < h.size))
  | integrate r rdmp => inferInstanceAs (Decidable (r ≠ rdmp ∨ (h.roadmap r).nodes = []))

/-- An operation keeps the count right: nodes are added without children, the source of a new edge
is in the roadmap that counts it and nowhere else, no edge of a node in use is removed, and no
roadmap with edges is integrated into another. -/
def Accounted (h : Heap C) : RoadmapOp C → Prop
  | newNode _ => True
  | addNode _ node => (h.node node).children = []
  | addEdge r source _ => h.Owns r source
  | removeEdge _ source target =>
    target ∈ (h.node source).children → ∀ r, source ∉ (h.roadmap r).nodes
  | tryConnection r source target tryReverse =>
    (isReachable (h.position source) (h.position target) = true → h.Owns r source) ∧
      (tryReverse = true → (isReversible = true →
        isReachable (h.position source) (h.position target) = true → h.Owns r target) ∧
        (isReversible = false →
          isReachable (h.position target) (h.position source) = true → h.Owns r target))
  | integrate r _ => (h.roadmap r).nEdges = 0
  | clear _ => True

variable {isReachable isReversible} {h : Heap C} {op : RoadmapOp C}

/-- The edges that an attempt to connect two nodes adds, and what it found out about each. -/
theorem tryConnection_cases (isReachable : C → C → Bool) (isReversible : Bool) (h : Heap C)
    (r : RoadmapPtr) (source target : NodePtr) (tryReverse : Bool) :
    let there := isReachable (h.position source) (h.position target) = true
    let back := tryReverse = true ∧ (isReversible = true ∧ there ∨
      isReversible = false ∧ isReachable (h.position target) (h.position source) = true)
    h.tryConnection isReachable isReversible r source target tryReverse = h ∨
      there ∧ h.tryConnection isReachable isReversible r source target tryReverse =
        h.addEdge r source target ∨
      back ∧ h.tryConnection isReachable isReversible r source target tryReverse =
        h.addEdge r target source ∨
      there ∧ back ∧ h.tryConnection isReachable isReversible r source target tryReverse =
        (h.addEdge r source target).addEdge r target source := by
  rw [Heap.tryConnection]
  cases tryReverse <;> cases isReversible <;>
    cases hthere : isReachable (h.position source) (h.position target) <;>
    cases hback : isReachable (h.position target) (h.position source) <;>
    simp [Heap.position_addEdge, *]

theorem linked_step (hl : h.Linked) (hruns : op.Runs h) :
    (op.step isReachable isReversible h).Linked := by
  cases op with
  | newNode pos => exact hl.newNode pos
  | addNode r node =>
    refine hl.of_node rfl rfl fun r' n hn ↦ ?_
    rcases eq_or_ne r' r with rfl | hr
    · simp only [step, Heap.addNode, Function.update_self, List.mem_append,
        List.mem_singleton] at hn
      rcases hn with hn | rfl
      · exact hl.node_lt r' n hn
      · exact hruns
    · simp only [step, Heap.addNode, Function.update_of_ne hr] at hn
      exact hl.node_lt r' n hn
  | addEdge r source target => exact hl.addEdge hruns.1 hruns.2
  | removeEdge r source target => exact hl.removeEdge
  | tryConnection r source target tryReverse =>
    have hthere : (h.addEdge r source target).Linked := hl.addEdge hruns.1 hruns.2
    rcases tryConnection_cases isReachable isReversible h r source target tryReverse with
      heq | ⟨-, heq⟩ | ⟨-, heq⟩ | ⟨-, -, heq⟩
    · rwa [step, heq]
    · rwa [step, heq]
    · rw [step, heq]
      exact hl.addEdge hruns.2 hruns.1
    · rw [step, heq]
      exact hthere.addEdge hruns.2 hruns.1
  | integrate r rdmp =>
    have hfold := Heap.foldl_addNode h rdmp (h.roadmap r).nodes
    refine hl.of_node ?_ ?_ fun r' n hn ↦ ?_
    · rw [step, Heap.integrate, hfold]
    · rw [step, Heap.integrate, hfold]
    · rw [step, Heap.roadmap_integrate hruns] at hn
      split at hn
      · exact absurd hn List.not_mem_nil
      · split at hn
        · exact (List.mem_append.1 hn).elim (hl.node_lt rdmp n) (hl.node_lt r n)
        · exact hl.node_lt r' n hn
  | clear r =>
    refine hl.of_node rfl rfl fun r' n hn ↦ ?_
    rcases eq_or_ne r' r with rfl | hr
    · simp [step, Heap.clear] at hn
    · simp only [step, Heap.clear, Function.update_of_ne hr] at hn
      exact hl.node_lt r' n hn

theorem accounts_step (hl : h.Linked) (ha : h.Accounts) (hruns : op.Runs h)
    (hacc : op.Accounted isReachable isReversible h) :
    (op.step isReachable isReversible h).Accounts := by
  cases op with
  | newNode pos =>
    intro r
    have hold : ∀ n ∈ (h.roadmap r).nodes, n ≠ h.size := fun n hn ↦ (hl.node_lt r n hn).ne
    refine (ha r).trans (congrArg List.sum (List.map_congr_left fun n hn ↦ ?_))
    simp [step, Heap.newNode, hold n hn]
  | addNode r node =>
    intro r'
    rcases eq_or_ne r' r with rfl | hr
    · have hzero : (h.node node).children.length = 0 := List.length_eq_zero_iff.2 hacc
      have hr' := ha r'
      rw [Heap.childEntries] at hr'
      simp [step, Heap.addNode, Heap.childEntries, hr', hzero]
    · have hr' := ha r'
      rw [Heap.childEntries] at hr'
      simp [step, Heap.addNode, Heap.childEntries, hr, hr']
  | addEdge r source target => exact ha.addEdge hacc
  | removeEdge r source target =>
    intro r'
    by_cases hmem : target ∈ (h.node source).children
    · rw [step, Heap.childEntries, (Heap.removeEdge_rest h source target).2]
      refine (ha r').trans (congrArg List.sum (List.map_congr_left fun n hn ↦ ?_))
      rw [Heap.children_removeEdge n hmem,
        if_neg (show n ≠ source from fun heq ↦ hacc hmem r' (heq ▸ hn))]
    · rw [step, Heap.removeEdge_of_notMem hmem]
      exact ha r'
  | tryConnection r source target tryReverse =>
    have htarget : tryReverse = true ∧ (isReversible = true ∧
        isReachable (h.position source) (h.position target) = true ∨ isReversible = false ∧
          isReachable (h.position target) (h.position source) = true) → h.Owns r target := by
      rintro ⟨htry, ⟨hrev, hthere⟩ | ⟨hrev, hback⟩⟩
      · exact (hacc.2 htry).1 hrev hthere
      · exact (hacc.2 htry).2 hrev hback
    rcases tryConnection_cases isReachable isReversible h r source target tryReverse with
      heq | ⟨hthere, heq⟩ | ⟨hback, heq⟩ | ⟨hthere, hback, heq⟩
    · rwa [step, heq]
    · rw [step, heq]
      exact ha.addEdge (hacc.1 hthere)
    · rw [step, heq]
      exact ha.addEdge (htarget hback)
    · rw [step, heq]
      exact (ha.addEdge (hacc.1 hthere)).addEdge ((htarget hback).addEdge r)
  | integrate r rdmp =>
    intro r'
    have hnode : (h.integrate r rdmp).node = h.node := by
      rw [Heap.integrate, Heap.foldl_addNode]
    have hzero : h.childEntries r = 0 := (ha r).symm.trans hacc
    rw [step, Heap.childEntries, hnode, Heap.roadmap_integrate hruns]
    split
    · exact hacc
    · split
      · rw [List.map_append, List.sum_append]
        exact (ha rdmp).trans (congrArg (h.childEntries rdmp + ·) hzero).symm
      · exact ha r'
  | clear r =>
    intro r'
    rcases eq_or_ne r' r with rfl | hr
    · simp [step, Heap.clear, Heap.childEntries]
    · have hr' := ha r'
      rw [Heap.childEntries] at hr'
      simp [step, Heap.clear, Heap.childEntries, hr, hr']

/-- **The books of the roadmaps.** In every run of the operations, on any number of roadmaps, a node
is as often among the children of another as that one is among its parents; and if every step keeps
the count right, the edges of each roadmap are counted as its nodes list them. -/
theorem consistent_run (isReachable : C → C → Bool) (isReversible : Bool) (cfg : C)
    (ops : List (RoadmapOp C))
    (hruns : Along (step isReachable isReversible) Runs (Heap.blank cfg) ops) :
    let h := ops.foldl (step isReachable isReversible) (Heap.blank cfg)
    (∀ a b, (h.node a).children.count b = (h.node b).parents.count a) ∧
      (Along (step isReachable isReversible) (Accounted isReachable isReversible) (Heap.blank cfg)
          ops →
        ∀ r, (h.roadmap r).nEdges =
          ((h.roadmap r).nodes.map fun n ↦ (h.node n).children.length).sum) := by
  refine ⟨(hruns.foldl (Heap.linked_blank cfg) fun h op ↦ linked_step).adjacent, fun hacc ↦ ?_⟩
  exact ((hruns.and hacc).foldl (I := fun h ↦ h.Linked ∧ h.Accounts)
    ⟨Heap.linked_blank cfg, Heap.accounts_blank cfg⟩ fun h op hI hP ↦
      ⟨linked_step hI.1 hP.1, accounts_step hI.1 hI.2 hP.1 hP.2⟩).2

/-- Two nodes are made and added to a roadmap. -/
def twoNodes : List (RoadmapOp ℕ) :=
  [newNode 0, newNode 1, addNode 0 0, addNode 0 1]

theorem owns_twoNodes {isReachable : ℕ → ℕ → Bool} {isReversible : Bool} {n : NodePtr}
    (hn : n = 0 ∨ n = 1) :
    (twoNodes.foldl (step isReachable isReversible) (Heap.blank 0)).Owns 0 n := by
  intro r
  rcases hn with rfl | rfl <;> rcases eq_or_ne r 0 with rfl | hr <;>
    simp [twoNodes, step, Heap.newNode, Heap.addNode, Heap.blank, *]

/-- Two nodes are connected both ways, and the roadmap takes up one without nodes. -/
theorem consistent_run_twoNodes :
    let ops := twoNodes ++ [tryConnection 0 0 1 true, integrate 1 0]
    let h := ops.foldl (step (fun _ _ ↦ true) true) (Heap.blank 0)
    (∀ a b, (h.node a).children.count b = (h.node b).parents.count a) ∧
      ∀ r, (h.roadmap r).nEdges =
        ((h.roadmap r).nodes.map fun n ↦ (h.node n).children.length).sum := by
  refine (consistent_run (fun _ _ ↦ true) true 0
    (twoNodes ++ [tryConnection 0 0 1 true, integrate 1 0]) ?_).imp_right fun h ↦ h ?_
  · decide
  · exact ⟨trivial, trivial, rfl, rfl, ⟨fun _ ↦ owns_twoNodes (.inl rfl), fun _ ↦
      ⟨fun _ _ ↦ owns_twoNodes (.inr rfl), nofun⟩⟩, rfl, trivial⟩

/-- An edge is added and removed again, and is still counted. -/
theorem not_counted_removeEdge :
    let ops := twoNodes ++ [addEdge 0 0 1, removeEdge 0 0 1]
    let h := ops.foldl (step (fun _ _ ↦ true) true) (Heap.blank 0)
    Along (step (fun _ _ ↦ true) true) Runs (Heap.blank 0) ops ∧ (h.roadmap 0).nEdges = 1 ∧
      ((h.roadmap 0).nodes.map fun n ↦ (h.node n).children.length).sum = 0 :=
  ⟨by decide, by decide, by decide⟩

end RoadmapOp

end OpenHRP.PathEngine
