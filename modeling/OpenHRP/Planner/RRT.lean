import OpenHRP.Planner.Roadmap
import Mathlib.Algebra.Field.Defs

/-!
# The RRT planner

`RRT::calcPath` over an arbitrary configuration space `C`, with distances in an ordered field `K`.
What the planner asks of its surroundings (`PathPlanner`) is a parameter: the mobility's distance,
interpolation and reachability, the collision predicate, the validity test and the sequence of
random configurations.

The two trees are roadmaps in one heap. The forward tree hangs from its parents, the backward tree,
which is grown in reverse, from its children, and the path is read back along first parents and
first children. The loops of the source that run until an extension fails or arrives (`connect`,
`extractPath`) take a number of steps as fuel; a call that needs more, or that would dereference a
null node, does not return (`Stop`).
-/

namespace OpenHRP.PathEngine

/-- Why a call does not return. -/
inductive Stop
  /-- A null node is dereferenced. -/
  | nullNode
  /-- A loop is still running after the steps it was given. -/
  | outOfFuel
  deriving DecidableEq

/-- The mobility of the robot. -/
structure Mobility (C K : Type*) where
  distance : C → C → K
  interpolate : C → C → K → C
  isReachable : C → C → Bool

/-- What an algorithm reads from its planner: the mobility, the collision check, the validity test
and the random configurations, in the order in which they are drawn. -/
structure PathPlanner (C K : Type*) where
  mobility : Mobility C K
  checkCollision : C → Bool
  isValid : C → Bool
  random : ℕ → C

/-- The result of `RRT::extend`. -/
inductive ExtendResult
  | advanced
  | trapped
  | reached
  deriving DecidableEq

/-- An RRT object. `maxTrials` and `epsProperty` are its properties "max-trials" and "eps", `draws`
counts the random configurations drawn so far. -/
structure RRT (C K : Type*) where
  heap : Heap C
  start : C
  goal : C
  maxTrials : ℤ
  epsProperty : K
  ignoreCollisionAtStart : Bool
  ignoreCollisionAtGoal : Bool
  path : List C
  Tstart : RoadmapPtr
  Tgoal : RoadmapPtr
  Ta : RoadmapPtr
  Tb : RoadmapPtr
  TlastExtended : Option RoadmapPtr
  eps : K
  extendFromStart : Bool
  extendFromGoal : Bool
  extraConnectionCheckFunc : Option (C → Bool)
  draws : ℕ

namespace RRT

variable {C K : Type*}

/-- The constructor, with the default configuration of the space and the default properties. -/
def new (cfg : C) (maxTrials : ℤ) (eps : K) : RRT C K where
  heap :=
    { size := 0
      node := fun _ ↦ { parents := [], children := [], pos := cfg }
      roadmap := fun _ ↦ { nodes := [], nEdges := 0 } }
  start := cfg
  goal := cfg
  maxTrials := maxTrials
  epsProperty := eps
  ignoreCollisionAtStart := false
  ignoreCollisionAtGoal := false
  path := []
  Tstart := 0
  Tgoal := 1
  Ta := 0
  Tb := 1
  TlastExtended := none
  eps := eps
  extendFromStart := true
  extendFromGoal := false
  extraConnectionCheckFunc := none
  draws := 0

/-- The object after an extension of `tree` that leaves the heap `h`. -/
def extended (s : RRT C K) (tree : RoadmapPtr) (h : Heap C) : RRT C K :=
  { s with heap := h, TlastExtended := some tree }

section Calls

variable [Field K] [LinearOrder K] (planner : PathPlanner C K)

/-- `RRT::extend`: one step of a tree towards `qRand`. The configuration returned is `qRand` as the
call leaves it. -/
def extend (s : RRT C K) (tree : RoadmapPtr) (qRand : C) (reverse : Bool) :
    RRT C K × C × ExtendResult :=
  match s.heap.findNearestNode planner.mobility.distance tree qRand with
  | none => (s.extended tree s.heap, qRand, .trapped)
  | some (minNode, min) =>
    let nearest := s.heap.position minNode
    let qRand :=
      if s.eps < min then planner.mobility.interpolate nearest qRand (s.eps / min) else qRand
    if planner.checkCollision qRand then (s.extended tree s.heap, qRand, .trapped)
    else if reverse then
      if planner.mobility.isReachable qRand nearest then
        (s.extended tree (s.heap.grow tree minNode qRand true), qRand,
          if min ≤ s.eps then .reached else .advanced)
      else (s.extended tree s.heap, qRand, .trapped)
    else if planner.mobility.isReachable nearest qRand then
      (s.extended tree (s.heap.grow tree minNode qRand false), qRand,
        if min ≤ s.eps then .reached else .advanced)
    else (s.extended tree s.heap, qRand, .trapped)

/-- `RRT::connect`: extend towards `qNew` until the tree is trapped or has arrived. -/
def connect : ℕ → RRT C K → RoadmapPtr → C → Bool → Except Stop (RRT C K × ExtendResult)
  | 0, _, _, _, _ => .error .outOfFuel
  | fuel + 1, s, tree, qNew, reverse =>
    match s.extend planner tree qNew reverse with
    | (s, _, .advanced) => connect fuel s tree qNew reverse
    | (s, _, ret) => .ok (s, ret)

/-- `RRT::swapTrees`. -/
def swapTrees (s : RRT C K) : RRT C K :=
  { s with Ta := s.Tb, Tb := s.Ta }

/-- `RRT::extendOneStep` once its random configuration `qNew` is drawn. -/
def extendTowards (fuel : ℕ) (s : RRT C K) (qNew : C) : Except Stop (RRT C K × Bool) :=
  if s.extendFromStart && s.extendFromGoal then
    match s.extend planner s.Ta qNew (s.Tb == s.Tstart) with
    | (s, _, .trapped) => .ok (s.swapTrees, false)
    | (s, qNew, _) =>
      match s.connect planner fuel s.Tb qNew (s.Ta == s.Tstart) with
      | .error e => .error e
      | .ok (s, .reached) =>
        match s.extraConnectionCheckFunc with
        | some f =>
          match s.heap.lastAddedNode s.Tstart with
          | none => .error .nullNode
          | some node => .ok (s, f (s.heap.position node))
        | none => .ok (s, true)
      | .ok (s, _) => .ok (s.swapTrees, false)
  else if s.extendFromStart then
    match s.extend planner s.Tstart qNew false with
    | (s, _, .trapped) => .ok (s, false)
    | (s, _, _) =>
      -- The source repeats the loop of `connect` here, on the forward tree.
      match s.connect planner fuel s.Tstart s.goal false with
      | .error e => .error e
      | .ok (s, ret) => .ok (s, ret == .reached)
  else .ok (s, false)

/-- `RRT::extendOneStep`: one trial. -/
def extendOneStep (fuel : ℕ) (s : RRT C K) : Except Stop (RRT C K × Bool) :=
  extendTowards planner fuel { s with draws := s.draws + 1 } (planner.random s.draws)

/-- The loop over the trials. -/
def trials (fuel : ℕ) : ℕ → RRT C K → Except Stop (RRT C K × Bool)
  | 0, s => .ok (s, false)
  | times + 1, s =>
    match s.extendOneStep planner fuel with
    | .error e => .error e
    | .ok (s, true) => .ok (s, true)
    | .ok (s, false) => trials fuel times s

/-- The configurations from a node to the end of its chain. -/
def readBack (fuel : ℕ) (h : Heap C) (reverse : Bool) (node : NodePtr) : Except Stop (List C) :=
  match walk (h.link reverse) fuel node with
  | none => .error .outOfFuel
  | some nodes => .ok (nodes.map h.position)

/-- The first loop of `RRT::extractPath`, its list reversed. -/
def readForward (fuel : ℕ) (s : RRT C K) (startMidNode : NodePtr) : Except Stop (List C) :=
  if s.extendFromStart then readBack fuel s.heap false startMidNode else .ok []

/-- The second loop of `RRT::extractPath`. When both trees grow it begins at the child, since the
two nodes in the middle are at one configuration. -/
def readBackward (fuel : ℕ) (s : RRT C K) (goalMidNode : NodePtr) : Except Stop (List C) :=
  if s.extendFromGoal then
    match if s.extendFromStart then (s.heap.node goalMidNode).child 0 else some goalMidNode with
    | none => .error .nullNode
    | some node => readBack fuel s.heap true node
  else .ok []

/-- `RRT::extractPath`. -/
def extractPath (fuel : ℕ) (s : RRT C K) : Except Stop (List C) :=
  match s.heap.lastAddedNode s.Tstart, s.heap.lastAddedNode s.Tgoal with
  | some startMidNode, some goalMidNode =>
    match s.readForward fuel startMidNode with
    | .error e => .error e
    | .ok front =>
      match s.readBackward fuel goalMidNode with
      | .error e => .error e
      | .ok back => .ok (front.reverse ++ back)
  | _, _ => .ok []

/-- The state when `RRT::calcPath` enters its trials: `eps_` is read, and the start and the goal
are new nodes of the two trees. -/
def plant (s : RRT C K) : RRT C K :=
  let (heap, startNode) := s.heap.newNode s.start
  let (heap, goalNode) := heap.newNode s.goal
  { s with eps := s.epsProperty
           heap := (heap.addNode s.Tstart startNode).addNode s.Tgoal goalNode }

/-- `RRT::calcPath`. -/
def calcPath (fuel : ℕ) (s : RRT C K) : Except Stop (RRT C K × Bool) :=
  match s.plant.trials planner fuel s.maxTrials.toNat with
  | .error e => .error e
  | .ok (s, isSucceed) =>
    match s.extractPath fuel with
    | .error e => .error e
    | .ok path =>
      .ok ({ s with path := path, heap := s.heap.integrate s.Tgoal s.Tstart }, isSucceed)

/-- `Algorithm::preparePlanning`. -/
def preparePlanning (s : RRT C K) : RRT C K × Bool :=
  ({ s with path := [] },
    planner.isValid s.start && (s.ignoreCollisionAtStart || !planner.checkCollision s.start) &&
      planner.isValid s.goal && (s.ignoreCollisionAtGoal || !planner.checkCollision s.goal))

/-- `Algorithm::tryDirectConnection`. -/
def tryDirectConnection (s : RRT C K) : RRT C K × Bool :=
  if planner.mobility.isReachable s.start s.goal then
    ({ s with path := s.path ++ [s.start, s.goal] }, true)
  else (s, false)

/-- One call on an RRT object. -/
inductive Call : RRT C K → RRT C K → Prop
  | setStartConfiguration (s : RRT C K) (pos : C) : Call s { s with start := pos }
  | setGoalConfiguration (s : RRT C K) (pos : C) : Call s { s with goal := pos }
  | setProperties (s : RRT C K) (maxTrials : ℤ) (eps : K) :
    Call s { s with maxTrials := maxTrials, epsProperty := eps }
  | extendFromStart (s : RRT C K) (b : Bool) : Call s { s with extendFromStart := b }
  | extendFromGoal (s : RRT C K) (b : Bool) : Call s { s with extendFromGoal := b }
  | setExtraConnectionCheckFunc (s : RRT C K) (f : Option (C → Bool)) :
    Call s { s with extraConnectionCheckFunc := f }
  | ignoreCollisionAtStart (s : RRT C K) (b : Bool) : Call s { s with ignoreCollisionAtStart := b }
  | ignoreCollisionAtGoal (s : RRT C K) (b : Bool) : Call s { s with ignoreCollisionAtGoal := b }
  | preparePlanning (s : RRT C K) : Call s (s.preparePlanning planner).1
  | tryDirectConnection (s : RRT C K) : Call s (s.tryDirectConnection planner).1
  | calcPath {s s' : RRT C K} {fuel : ℕ} {b : Bool} :
    s.calcPath planner fuel = .ok (s', b) → Call s s'

end Calls

end RRT

end OpenHRP.PathEngine
