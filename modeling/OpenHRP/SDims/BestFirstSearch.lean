import Mathlib.Algebra.Order.Group.Defs

/-!
# Best-first search

`dpMain::Search` opens the cheapest node of a queue until no active node is left. A new node is
compared with every node of the search tree: where the new node is not more expensive than a node
of the same state, that node is removed with all nodes below it; where it is more expensive, the
new node is dropped.

The queue is a binary tree sorted by cost from which nothing is ever deleted: a node that has been
opened or removed is only marked as inactive. A node is known by its number. Costs are exact.
-/

namespace OpenHRP

/-- The virtual functions of a node, as functions of its state. -/
structure SearchProblem (S K : Type*) where
  /-- `create_child_nodes`: the states of the children, each with its `calc_cost`. There may be null
  pointers among them. -/
  createChildNodes : S → List (Option (S × K))
  /-- `calc_astar_cost` of a node for a potential parent. -/
  calcAstarCost : S → S → K
  /-- `same_state` of a new node and another one. -/
  sameState : S → S → Bool
  /-- `is_goal`. -/
  isGoal : S → Bool

/-- The data of a `dpNode`. -/
structure DpNode (S K : Type*) where
  id : ℕ
  state : S
  cost : K
  astarCost : K
  totalCost : K
  /-- The key in the queue. The start node's is not initialized, and may be a NaN (`none`). -/
  totalAstarCost : Option K
  depth : ℕ

/-- A `dpNode` with the nodes its pointers `child` and `brother` lead to. -/
inductive DpTree (S K : Type*) where
  | nil
  | node (n : DpNode S K) (child brother : DpTree S K)

/-- A `dpQueue`: its node, whether it is active, and the queues its pointers `smaller_child` and
`larger_child` lead to. -/
inductive DpQueue (S K : Type*) where
  | nil
  | node (n : DpNode S K) (active : Bool) (smallerChild largerChild : DpQueue S K)

/-- A `dpMain`. -/
structure DpMain (S K : Type*) where
  startNode : DpTree S K
  topQueue : DpQueue S K
  nNodes : ℕ
  nGoals : ℕ

section Queue

variable {S K : Type*} [LinearOrder K]

/-- `total_astar_cost >= n.total_astar_cost`, which is false for a NaN. -/
def DpNode.notSmaller (q n : DpNode S K) : Bool :=
  match q.totalAstarCost, n.totalAstarCost with
  | some x, some y => y ≤ x
  | _, _ => false

namespace DpQueue

/-- `add_queue`. -/
def addQueue (q : DpNode S K) : DpQueue S K → DpQueue S K
  | nil => node q true nil nil
  | node n active smallerChild largerChild =>
    if q.notSmaller n then node n active smallerChild (addQueue q largerChild)
    else node n active (addQueue q smallerChild) largerChild

/-- The first node, from the smaller ones to the larger ones, that meets a condition. -/
def first (p : DpNode S K → Bool → Bool) : DpQueue S K → Option (DpNode S K)
  | nil => none
  | node n active smallerChild largerChild =>
    match first p smallerChild with
    | some ret => some ret
    | none => if p n active then some n else first p largerChild

/-- `smallest`. -/
def smallest (q : DpQueue S K) : Option (DpNode S K) :=
  q.first fun _ active ↦ active

/-- `smallest_goal`, which does not ask whether a node is active. -/
def smallestGoal (problem : SearchProblem S K) (q : DpQueue S K) : Option (DpNode S K) :=
  q.first fun n _ ↦ problem.isGoal n.state

/-- `active = false` for the nodes with the given numbers. -/
def deactivate (ids : List ℕ) : DpQueue S K → DpQueue S K
  | nil => nil
  | node n active smallerChild largerChild =>
    node n (active && n.id ∉ ids) (deactivate ids smallerChild) (deactivate ids largerChild)

end DpQueue

end Queue

section Tree

variable {S K : Type*} [LinearOrder K]

namespace DpTree

/-- The numbers of the nodes that `remove` reaches from a node's child. -/
def ids : DpTree S K → List ℕ
  | nil => []
  | node n child brother => n.id :: (child.ids ++ brother.ids)

/-- `is_best` for the nodes from a node and its brothers on: whether no node is better than the
target, and the numbers of the nodes that are removed. The search below a node ends where the states
agree. -/
def isBest (problem : SearchProblem S K) (target : DpNode S K) : DpTree S K → Bool × List ℕ
  | nil => (true, [])
  | node ref child brother =>
    let r :=
      if problem.sameState target.state ref.state then
        if target.totalCost ≤ ref.totalCost then (true, ref.id :: child.ids) else (false, [])
      else isBest problem target child
    if r.1 then
      let r' := isBest problem target brother
      (r'.1, r.2 ++ r'.2)
    else r

/-- `child = n` in the node with the number `id`, after `n->brother = child`. -/
def addChild (id : ℕ) (n : DpNode S K) : DpTree S K → DpTree S K
  | nil => nil
  | node m child brother =>
    if m.id = id then node m (node n nil child) brother
    else node m (addChild id n child) (addChild id n brother)

end DpTree

end Tree

namespace DpMain

variable {S K : Type*} [AddCommGroup K] [LinearOrder K]

/-- A `dpMain` as it is constructed. -/
def new : DpMain S K where
  startNode := .nil
  topQueue := .nil
  nNodes := 0
  nGoals := 0

/-- `active = false` for the nodes with the given numbers. -/
def deactivate (m : DpMain S K) (ids : List ℕ) : DpMain S K :=
  { m with topQueue := m.topQueue.deactivate ids }

/-- `if(n->is_goal()) n_goals++`. -/
def countGoal (problem : SearchProblem S K) (state : S) (m : DpMain S K) : DpMain S K :=
  if problem.isGoal state then { m with nGoals := m.nGoals + 1 } else m

/-- A `dpNode` as it is constructed, with its number. The constructor leaves `total_astar_cost` as
it is in memory. -/
def newNode (start : S) (totalAstarCost : Option K) (id : ℕ) : DpNode S K where
  id := id
  state := start
  cost := 0
  astarCost := 0
  totalCost := 0
  totalAstarCost := totalAstarCost
  depth := 0

/-- `SetStartNode`, for a new node with the given state. -/
def setStartNode (problem : SearchProblem S K) (start : S) (totalAstarCost : Option K)
    (m : DpMain S K) : DpMain S K :=
  let n := newNode start totalAstarCost m.nNodes
  countGoal problem start
    { m with
      startNode := .node n .nil .nil
      topQueue := m.topQueue.addQueue n
      nNodes := m.nNodes + 1 }

/-- The node that `open` makes for a child of `parent`. -/
def childNode (problem : SearchProblem S K) (parent : DpNode S K) (state : S) (cost : K) (id : ℕ) :
    DpNode S K where
  id := id
  state := state
  cost := cost
  astarCost := problem.calcAstarCost state parent.state
  totalCost := parent.totalCost + cost
  totalAstarCost := some (parent.totalCost + cost + problem.calcAstarCost state parent.state)
  depth := parent.depth + 1

/-- One turn of the loop of `open`. -/
def openChild (problem : SearchProblem S K) (parent : DpNode S K) (m : DpMain S K) :
    Option (S × K) → DpMain S K
  | none => m
  | some (state, cost) =>
    let n := childNode problem parent state cost m.nNodes
    let best := m.startNode.isBest problem n
    let m := m.deactivate best.2
    if best.1 then
      countGoal problem state
        { m with
          startNode := m.startNode.addChild parent.id n
          topQueue := m.topQueue.addQueue n
          nNodes := m.nNodes + 1 }
    else m

/-- `open`: its result, and the nodes after it. A negative bound is no bound. -/
def openNode (problem : SearchProblem S K) (maxNodes maxGoals : ℤ) (n : DpNode S K)
    (m : DpMain S K) : ℤ × DpMain S K :=
  let children := problem.createChildNodes n.state
  if children = [] then (0, m)
  else
    let m := children.foldl (openChild problem n) m
    if 0 ≤ maxNodes ∧ maxNodes ≤ m.nNodes then (-1, m)
    else if 0 ≤ maxGoals ∧ maxGoals ≤ m.nGoals then (-1, m)
    else (0, m)

/-- The loop of `Search` from a node of the queue on. There is no result if the fuel does not
suffice. -/
def searchLoop (problem : SearchProblem S K) (maxNodes maxGoals : ℤ) :
    ℕ → Option (DpNode S K) → DpMain S K → Option (DpMain S K)
  | 0, _, _ => none
  | _ + 1, none, m => some m
  | fuel + 1, some n, m =>
    let r := openNode problem maxNodes maxGoals n m
    if r.1 ≠ 0 then some r.2
    else
      let m := r.2.deactivate [n.id]
      searchLoop problem maxNodes maxGoals fuel m.topQueue.smallest m

/-- The node of `top_queue`. -/
def topNode (m : DpMain S K) : Option (DpNode S K) :=
  match m.topQueue with
  | .nil => none
  | .node n _ _ _ => some n

/-- `Search`: its result, and the nodes after it. -/
def search (problem : SearchProblem S K) (maxNodes maxGoals : ℤ) (fuel : ℕ) (m : DpMain S K) :
    Option (ℤ × DpMain S K) :=
  match m.startNode with
  | .nil => some (-1, m)
  | .node _ _ _ =>
    (searchLoop problem maxNodes maxGoals fuel m.topNode m).map fun m ↦ (0, m)

/-- `BestGoal`. -/
def bestGoal (problem : SearchProblem S K) (m : DpMain S K) : Option (DpNode S K) :=
  m.topQueue.smallestGoal problem

end DpMain

end OpenHRP
