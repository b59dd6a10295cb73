import OpenHRP.SDims.BestFirstOptimal

/-!
# The nodes of a best-first search

Whatever `same_state` compares and whatever the bounds are, all nodes of the search tree and of the
queue have states that `create_child_nodes` leads to from the start, along paths that cost what the
nodes cost (`onPaths_search`).
-/

namespace OpenHRP.DpMain

variable {S K : Type*} [AddCommGroup K] [LinearOrder K] {problem : SearchProblem S K} {start : S}
  {m m' : DpMain S K}

/-- The nodes of the tree and of the queue are at the ends of paths from the start. -/
structure OnPaths (problem : SearchProblem S K) (start : S) (m : DpMain S K) : Prop where
  nodes : ∀ n ∈ m.nodes, WeightedPath problem.Edge start n.state n.totalCost
  queue : ∀ x ∈ m.topQueue.toList, WeightedPath problem.Edge start x.1.state x.1.totalCost

section

omit [LinearOrder K]

theorem OnPaths.deactivate (h : OnPaths problem start m) (ids : List ℕ) :
    OnPaths problem start (m.deactivate ids) where
  nodes := h.nodes
  queue x hx := by
    obtain ⟨active, hmem, -⟩ := (DpQueue.mem_deactivate ids _ x).1 hx
    exact h.queue (x.1, active) hmem

theorem OnPaths.countGoal (h : OnPaths problem start m) (s : S) :
    OnPaths problem start (countGoal problem s m) := by
  rw [DpMain.countGoal]
  split
  · exact ⟨h.nodes, h.queue⟩
  · exact h

end

/-- A child that is added is one edge further than its parent. -/
theorem OnPaths.openChild (h : OnPaths problem start m) {parent : DpNode S K}
    (hparent : WeightedPath problem.Edge start parent.state parent.totalCost)
    {child : Option (S × K)} (hchild : child ∈ problem.createChildNodes parent.state) :
    OnPaths problem start (openChild problem parent m child) := by
  rcases child with _ | ⟨state, cost⟩
  · exact h
  · have hnew : WeightedPath problem.Edge start state (parent.totalCost + cost) :=
      hparent.snoc hchild
    rw [DpMain.openChild]
    set n := childNode problem parent state cost m.nNodes with hn
    have hdeactivated := h.deactivate (m.startNode.isBest problem n).2
    split
    · refine OnPaths.countGoal ⟨fun x hx ↦ ?_, fun x hx ↦ ?_⟩ state
      · obtain hx | ⟨rfl, -⟩ := (DpTree.mem_addChild _ _ _ x).1 hx
        · exact hdeactivated.nodes x hx
        · exact hnew
      · obtain rfl | hx := (DpQueue.mem_addQueue n _ x).1 hx
        · exact hnew
        · exact hdeactivated.queue x hx
    · exact hdeactivated

theorem OnPaths.openNode (h : OnPaths problem start m) {n : DpNode S K}
    (hn : WeightedPath problem.Edge start n.state n.totalCost) (maxNodes maxGoals : ℤ) :
    OnPaths problem start (openNode problem maxNodes maxGoals n m).2 := by
  have hchildren (children : List (Option (S × K)))
      (hsub : ∀ child ∈ children, child ∈ problem.createChildNodes n.state) {m : DpMain S K}
      (h : OnPaths problem start m) :
      OnPaths problem start (children.foldl (DpMain.openChild problem n) m) := by
    induction children generalizing m with
    | nil => exact h
    | cons child children ih =>
      exact ih (fun c hc ↦ hsub c (List.mem_cons_of_mem _ hc))
        (h.openChild hn (hsub child List.mem_cons_self))
  rw [DpMain.openNode]
  split
  · exact h
  · have hall := hchildren _ (fun _ hc ↦ hc) h
    dsimp only
    split
    · exact hall
    · split <;> exact hall

/-- The loop opens nodes of the queue. -/
theorem OnPaths.searchLoop (h : OnPaths problem start m) {maxNodes maxGoals : ℤ} {fuel : ℕ}
    {q : Option (DpNode S K)} (hq : ∀ n ∈ q, WeightedPath problem.Edge start n.state n.totalCost)
    (hloop : searchLoop problem maxNodes maxGoals fuel q m = some m') :
    OnPaths problem start m' := by
  induction fuel generalizing q m with
  | zero => cases hloop
  | succ fuel ih =>
    rcases q with _ | n
    · cases hloop
      exact h
    · have hopen := h.openNode (hq n rfl) maxNodes maxGoals
      rw [DpMain.searchLoop] at hloop
      split at hloop
      · cases hloop
        exact hopen
      · refine ih (hopen.deactivate [n.id]) (fun n' hn' ↦ ?_) hloop
        obtain ⟨active, hmem, -⟩ := DpQueue.mem_of_first hn'
        exact (hopen.deactivate [n.id]).queue (n', active) hmem

theorem onPaths_setStartNode (totalAstarCost : Option K) :
    OnPaths problem start (setStartNode problem start totalAstarCost new) := by
  refine OnPaths.countGoal ⟨fun n hn ↦ ?_, fun x hx ↦ ?_⟩ start
  · have heq : n = newNode start totalAstarCost 0 := by
      simpa [DpMain.nodes, DpTree.nodes, new] using hn
    rw [heq]
    exact .nil
  · have heq : x = (newNode start totalAstarCost 0, true) := by
      simpa [DpQueue.addQueue, DpQueue.toList, new] using hx
    rw [heq]
    exact .nil

/-- **All nodes of a search are at the ends of paths from the start.** -/
theorem onPaths_search {totalAstarCost : Option K} {maxNodes maxGoals x : ℤ} {fuel : ℕ}
    (hsearch : search problem maxNodes maxGoals fuel
      (setStartNode problem start totalAstarCost new) = some (x, m)) :
    OnPaths problem start m := by
  have hstart : OnPaths problem start (setStartNode problem start totalAstarCost new) :=
    onPaths_setStartNode totalAstarCost
  rw [search] at hsearch
  split at hsearch
  · cases hsearch
    exact hstart
  · obtain ⟨m', hloop, heq⟩ := Option.map_eq_some_iff.1 hsearch
    cases heq
    refine hstart.searchLoop (fun n hn ↦ ?_) hloop
    rw [topNode] at hn
    split at hn
    · cases hn
    · next n' active smallerChild largerChild hqueue =>
      cases hn
      exact hstart.queue (n, active) (by rw [hqueue]; simp [DpQueue.toList])

end OpenHRP.DpMain
