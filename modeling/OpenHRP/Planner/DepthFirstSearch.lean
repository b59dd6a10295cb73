import OpenHRP.Foundations.DepthFirst
import OpenHRP.Planner.Roadmap

/-!
# Depth-first search on a roadmap

`Roadmap::DFS` clears the flags `visited_` of the roadmap's nodes, which is all that it knows about
them, and then keeps a path as a vector: it goes on to the first child that is not visited, and
back when there is none. On a roadmap whose children are its own nodes this is the search of
`DepthFirst`, so it ends with a path to the goal or with the empty path (`dfsLoop_spec`).
-/

namespace OpenHRP.PathEngine.Heap

variable {C : Type*}

/-- The loop of `Roadmap::DFS`, with the number of its turns as fuel: the path and the flags that it
leaves. -/
def dfsLoop (h : Heap C) (goalNode : NodePtr) :
    ℕ → List NodePtr → (NodePtr → Bool) → Option (List NodePtr × (NodePtr → Bool))
  | 0, _, _ => none
  | fuel + 1, path, visited =>
    match path.getLast? with
    | none => some (path, visited)
    | some node =>
      if node = goalNode then some (path, visited)
      else
        match (h.node node).children.find? fun child ↦ !visited child with
        | none => dfsLoop h goalNode fuel path.dropLast visited
        | some child =>
          dfsLoop h goalNode fuel (path ++ [child]) (Function.update visited child true)

/-- The first loop of `Roadmap::DFS`: no node of the roadmap is visited. -/
def unvisit (h : Heap C) (r : RoadmapPtr) (visited : NodePtr → Bool) : NodePtr → Bool :=
  (h.roadmap r).nodes.foldl (fun visited n ↦ Function.update visited n false) visited

/-- `Roadmap::DFS`, on nodes with these flags. -/
def DFS (h : Heap C) (r : RoadmapPtr) (startNode goalNode : NodePtr) (visited : NodePtr → Bool)
    (fuel : ℕ) : Option (List NodePtr × (NodePtr → Bool)) :=
  h.dfsLoop goalNode fuel [startNode] (Function.update (h.unvisit r visited) startNode true)

/-- `b` is a child of `a`. -/
def IsChild (h : Heap C) (a b : NodePtr) : Prop :=
  b ∈ (h.node a).children

variable {h : Heap C} {r : RoadmapPtr} {startNode goalNode n : NodePtr}
  {visited : NodePtr → Bool} {path : List NodePtr} {S : Finset NodePtr}

theorem unvisit_of_mem (hn : n ∈ (h.roadmap r).nodes) : h.unvisit r visited n = false := by
  have hfold : ∀ (nodes : List NodePtr) (visited : NodePtr → Bool), visited n = false ∨ n ∈ nodes →
      nodes.foldl (fun visited n ↦ Function.update visited n false) visited n = false := by
    intro nodes
    induction nodes with
    | nil => exact fun visited hn ↦ hn.resolve_right List.not_mem_nil
    | cons m nodes ih =>
      intro visited hn
      refine ih _ ?_
      dsimp only
      rcases eq_or_ne n m with rfl | hne
      · exact .inl (Function.update_self _ _ _)
      · rw [Function.update_of_ne hne]
        exact hn.imp_right fun hn ↦ (List.mem_cons.1 hn).resolve_left hne
  exact hfold _ _ (.inr hn)

/-- How a search ends: at the goal, or with nothing left of its path. -/
theorem dfsLoop_spec (hclosed : ∀ a ∈ S, ∀ b ∈ (h.node a).children, b ∈ S)
    (hinv : DepthFirst.Inv (fun a ↦ (h.node a).children) S startNode goalNode path visited) :
    ∃ path' visited', (∀ fuel, DepthFirst.potential S path visited < fuel →
        h.dfsLoop goalNode fuel path visited = some (path', visited')) ∧
      DepthFirst.Inv (fun a ↦ (h.node a).children) S startNode goalNode path' visited' ∧
      (path' = [] ∨ path'.getLast? = some goalNode) := by
  induction hn : DepthFirst.potential S path visited using Nat.strong_induction_on
    generalizing path visited with
  | _ n ih =>
    have hsucc : ∀ fuel, n < fuel → ∃ m, fuel = m + 1 ∧ n ≤ m := fun fuel hfuel ↦
      ⟨fuel - 1, by omega, by omega⟩
    cases hlast : path.getLast? with
    | none =>
      refine ⟨path, visited, fun fuel hfuel ↦ ?_, hinv, .inl (List.getLast?_eq_none_iff.1 hlast)⟩
      obtain ⟨m, rfl, -⟩ := hsucc fuel hfuel
      rw [dfsLoop, hlast]
    | some node =>
      rcases eq_or_ne node goalNode with rfl | hne
      · refine ⟨path, visited, fun fuel hfuel ↦ ?_, hinv, .inr hlast⟩
        obtain ⟨m, rfl, -⟩ := hsucc fuel hfuel
        rw [dfsLoop, hlast]
        exact if_pos rfl
      · have hnode := (hinv.mem node (List.mem_of_getLast? hlast)).1
        cases hchild : (h.node node).children.find? fun child ↦ !visited child with
        | none =>
          have hall : ∀ b ∈ (h.node node).children, visited b = true := fun b hb ↦ by
            simpa using List.find?_eq_none.1 hchild b hb
          obtain ⟨path', visited', hrun, hend⟩ := ih _ (hn ▸ DepthFirst.potential_pop hlast)
            (hinv.pop hlast hne hall) rfl
          refine ⟨path', visited', fun fuel hfuel ↦ ?_, hend⟩
          obtain ⟨m, rfl, hm⟩ := hsucc fuel hfuel
          rw [dfsLoop, hlast]
          dsimp only
          rw [if_neg hne, hchild]
          exact hrun m ((hn ▸ DepthFirst.potential_pop hlast).trans_le hm)
        | some child =>
          have hmem := List.mem_of_find?_eq_some hchild
          have hnew : visited child = false := by simpa using List.find?_some hchild
          have hchildS := hclosed node hnode child hmem
          have hlt : DepthFirst.potential S (path ++ [child])
              (Function.update visited child true) < n :=
            hn ▸ DepthFirst.potential_push hchildS hnew
          obtain ⟨path', visited', hrun, hend⟩ := ih _ hlt
            (hinv.push hlast hne hmem hchildS hnew) rfl
          refine ⟨path', visited', fun fuel hfuel ↦ ?_, hend⟩
          obtain ⟨m, rfl, hm⟩ := hsucc fuel hfuel
          rw [dfsLoop, hlast]
          dsimp only
          rw [if_neg hne, hchild]
          exact hrun m (hlt.trans_le hm)

/-- **Depth-first search is complete.** On a roadmap whose children are all its own nodes, the
search between two of its nodes ends. If the goal is within reach along children, the result is a
path to it that follows children and meets no node twice; if it is not, the result is empty. -/
theorem DFS_spec (h : Heap C) (r : RoadmapPtr) (startNode goalNode : NodePtr)
    (visited : NodePtr → Bool)
    (hclosed : ∀ a ∈ (h.roadmap r).nodes, ∀ b ∈ (h.node a).children, b ∈ (h.roadmap r).nodes)
    (hstart : startNode ∈ (h.roadmap r).nodes) (hgoal : goalNode ∈ (h.roadmap r).nodes) :
    ∃ path visited', (∀ fuel, 2 * (h.roadmap r).nodes.length + 1 < fuel →
        h.DFS r startNode goalNode visited fuel = some (path, visited')) ∧
      (Relation.ReflTransGen h.IsChild startNode goalNode →
        path.Nodup ∧ path.head? = some startNode ∧ path.getLast? = some goalNode ∧
          path.IsChain h.IsChild) ∧
      (¬ Relation.ReflTransGen h.IsChild startNode goalNode → path = []) := by
  have hS : ∀ n, n ∈ (h.roadmap r).nodes.toFinset ↔ n ∈ (h.roadmap r).nodes := fun n ↦
    List.mem_toFinset
  have hnone : ∀ a ∈ (h.roadmap r).nodes.toFinset, h.unvisit r visited a = false := fun a ha ↦
    unvisit_of_mem ((hS a).1 ha)
  have hinit : DepthFirst.Inv (fun a ↦ (h.node a).children) (h.roadmap r).nodes.toFinset startNode
      goalNode [startNode] (Function.update (h.unvisit r visited) startNode true) :=
    .init ((hS _).2 hstart) hnone ((hS _).2 hgoal)
  have hclosed' : ∀ a ∈ (h.roadmap r).nodes.toFinset, ∀ b ∈ (h.node a).children,
      b ∈ (h.roadmap r).nodes.toFinset := fun a ha b hb ↦
    (hS b).2 (hclosed a ((hS a).1 ha) b hb)
  obtain ⟨path, visited', hrun, hinv, hend⟩ := dfsLoop_spec hclosed' hinit
  refine ⟨path, visited', fun fuel hfuel ↦ hrun fuel (lt_of_le_of_lt ?_ hfuel), ?_, ?_⟩
  · have hcard := List.toFinset_card_le (h.roadmap r).nodes
    exact (DepthFirst.potential_singleton_le _ _ _).trans (by omega)
  · intro hreach
    rcases hend with rfl | hlast
    · exact absurd hreach (hinv.not_reachable hclosed' ((hS _).2 hstart))
    · exact ⟨hinv.nodup, (hinv.reachable hlast).1, hlast, hinv.chain⟩
  · exact fun hnot ↦ hend.resolve_right fun hlast ↦ hnot (hinv.reachable hlast).2

/-- A roadmap of three nodes: from 0 to itself, twice to 1 and back; 2 has no edge to it. -/
def threeNodes : Heap Unit where
  size := 3
  node n := ⟨[], if n = 0 then [0, 1, 1] else [0], ()⟩
  roadmap _ := ⟨[0, 1, 2], 5⟩

theorem DFS_spec_threeNodes : ∃ path visited', (∀ fuel, 2 * 3 + 1 < fuel →
      threeNodes.DFS 0 0 1 (fun _ ↦ true) fuel = some (path, visited')) ∧
    (Relation.ReflTransGen threeNodes.IsChild 0 1 →
      path.Nodup ∧ path.head? = some 0 ∧ path.getLast? = some 1 ∧
        path.IsChain threeNodes.IsChild) ∧
    (¬ Relation.ReflTransGen threeNodes.IsChild 0 1 → path = []) :=
  DFS_spec threeNodes 0 0 1 (fun _ ↦ true) (by decide) (by decide) (by decide)

example : (threeNodes.DFS 0 0 1 (fun _ ↦ true) 8).map Prod.fst = some [0, 1] := by
  decide

example : (threeNodes.DFS 0 0 2 (fun _ ↦ true) 8).map Prod.fst = some [] := by
  decide

end OpenHRP.PathEngine.Heap
