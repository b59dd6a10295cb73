import OpenHRP.SDims.BestFirstOptimal

/-!
# Stopping at the first goal

With a bound of one goal the search ends in the turn that adds a goal to the tree, which is the turn
that opens its parent. The parent is a nearest one among the states with a goal among their
children, and the goal that is found is the cheapest child of this parent (`search_first_goal`). It
need not be the cheapest goal, since the way through another state that is further away may be
cheaper (`findsCheapest_of_nearest`, `not_findsCheapest`).
-/

namespace OpenHRP

variable {S K : Type*} [AddCommGroup K] [LinearOrder K] {problem : SearchProblem S K} {start : S}

namespace SearchProblem

/-- There is a goal among the children. -/
def HasGoalChild (problem : SearchProblem S K) (s : S) : Prop :=
  ∃ g c, problem.Edge s g c ∧ problem.isGoal g = true

/-- A nearest state with a goal among its children, and its distance. -/
def Nearest (problem : SearchProblem S K) (start s : S) (d : K) : Prop :=
  (problem.HasGoalChild s ∧ WeightedPath problem.Edge start s d) ∧
    ∀ s' d', problem.HasGoalChild s' → WeightedPath problem.Edge start s' d' → d ≤ d'

/-- The costs of the goals among the children of a state at a distance. -/
def ChildCosts (problem : SearchProblem S K) (s : S) (d : K) : Set K :=
  {x | ∃ g c, problem.Edge s g c ∧ problem.isGoal g = true ∧ x = d + c}

end SearchProblem

/-! ### The goals in the tree -/

/-- The goals of the tree are counted. -/
def CountsGoals (problem : SearchProblem S K) (m : DpMain S K) : Prop :=
  0 < m.nGoals ↔ ∃ n ∈ m.nodes, problem.isGoal n.state = true

/-- The nodes of the tree are those of another tree and children of a node. -/
def GrownBy (problem : SearchProblem S K) (parent : DpNode S K) (m m' : DpMain S K) : Prop :=
  ∀ n ∈ m'.nodes, n ∈ m.nodes ∨
    ∃ c, problem.Edge parent.state n.state c ∧ n.totalCost = parent.totalCost + c

variable {m : DpMain S K} {parent : DpNode S K}

omit [AddCommGroup K] [LinearOrder K] in
theorem CountsGoals.deactivate (h : CountsGoals problem m) (ids : List ℕ) :
    CountsGoals problem (m.deactivate ids) :=
  h

/-- One child: the goals stay counted, and the tree grows by the child at most. -/
theorem openChild_counts (h : CountsGoals problem m) (hparent : parent ∈ m.nodes)
    {child : Option (S × K)} (hchild : child ∈ problem.createChildNodes parent.state) :
    CountsGoals problem (DpMain.openChild problem parent m child) ∧
      GrownBy problem parent m (DpMain.openChild problem parent m child) ∧
      parent ∈ (DpMain.openChild problem parent m child).nodes := by
  rcases child with _ | ⟨state, cost⟩
  · exact ⟨h, fun n hn ↦ .inl hn, hparent⟩
  · rw [DpMain.openChild]
    set n := DpMain.childNode problem parent state cost m.nNodes with hn
    have hmem : ∀ x, x ∈ (m.startNode.addChild parent.id n).nodes ↔ x ∈ m.nodes ∨ x = n := fun x ↦
      (DpTree.mem_addChild parent.id n m.startNode x).trans
        (or_congr_right (and_iff_left ⟨parent, hparent, rfl⟩))
    split
    · refine ⟨?_, fun x hx ↦ ?_, ?_⟩
      · rw [CountsGoals, Searching.countGoal_nodes, DpMain.countGoal]
        by_cases hgoal : problem.isGoal state = true
        · rw [if_pos hgoal]
          exact iff_of_true (Nat.succ_pos _) ⟨n, (hmem n).2 (.inr rfl), hgoal⟩
        · rw [if_neg hgoal]
          refine h.trans ⟨?_, ?_⟩
          · rintro ⟨x, hx, hx'⟩
            exact ⟨x, (hmem x).2 (.inl hx), hx'⟩
          · rintro ⟨x, hx, hx'⟩
            rcases (hmem x).1 hx with hx | rfl
            · exact ⟨x, hx, hx'⟩
            · exact absurd hx' hgoal
      · rw [Searching.countGoal_nodes] at hx
        refine ((hmem x).1 hx).imp_right ?_
        rintro rfl
        exact ⟨cost, hchild, rfl⟩
      · rw [Searching.countGoal_nodes]
        exact (hmem parent).2 (.inl hparent)
    · exact ⟨h, fun x hx ↦ .inl hx, hparent⟩

/-- All children: the goals stay counted, and the tree grows by children. -/
theorem openChildren_counts {children : List (Option (S × K))}
    (hchildren : ∀ child ∈ children, child ∈ problem.createChildNodes parent.state)
    (h : CountsGoals problem m) (hparent : parent ∈ m.nodes) :
    CountsGoals problem (children.foldl (DpMain.openChild problem parent) m) ∧
      GrownBy problem parent m (children.foldl (DpMain.openChild problem parent) m) := by
  induction children generalizing m with
  | nil => exact ⟨h, fun n hn ↦ .inl hn⟩
  | cons child children ih =>
    obtain ⟨hcounts, hgrown, hmem⟩ := openChild_counts h hparent (hchildren child (.head _))
    obtain ⟨hcounts', hgrown'⟩ := ih (fun c hc ↦ hchildren c (.tail _ hc)) hcounts hmem
    rw [List.foldl_cons]
    refine ⟨hcounts', fun n hn ↦ ?_⟩
    rcases hgrown' n hn with hn | hn
    · exact hgrown n hn
    · exact .inr hn

/-- With a bound of one goal, a node is opened as without a bound, and the search ends where there
is a goal afterwards. -/
theorem openNode_one (n : DpNode S K) (m : DpMain S K)
    (hnone : problem.createChildNodes n.state = [] → m.nGoals = 0) :
    (DpMain.openNode problem (-1) 1 n m).2 = (DpMain.openNode problem (-1) (-1) n m).2 ∧
      ((DpMain.openNode problem (-1) 1 n m).1 ≠ 0 ↔
        0 < (DpMain.openNode problem (-1) (-1) n m).2.nGoals) := by
  rw [openNode_eq, DpMain.openNode]
  by_cases hnil : problem.createChildNodes n.state = []
  · rw [if_pos hnil, hnil]
    exact ⟨rfl, iff_of_false (not_not.2 rfl) (hnone hnil ▸ Nat.lt_irrefl 0)⟩
  · rw [if_neg hnil]
    set m' := (problem.createChildNodes n.state).foldl (DpMain.openChild problem n) m
    rw [if_neg (by omega)]
    by_cases hgoals : 0 < m'.nGoals
    · rw [if_pos (by omega)]
      exact ⟨rfl, iff_of_true (show (-1 : ℤ) ≠ 0 by decide) hgoals⟩
    · rw [if_neg (by omega)]
      exact ⟨rfl, iff_of_false (not_not.2 rfl) hgoals⟩

/-! ### The turn that ends the search -/

section Turn

variable {opened : List (DpNode S K)}

/-- What holds before every turn while no goal has been found. -/
structure NoGoalYet (problem : SearchProblem S K) (start : S) (m : DpMain S K)
    (opened : List (DpNode S K)) : Prop where
  between : BetweenTurns problem start m opened
  counts : CountsGoals problem m
  noGoal : ∀ n ∈ m.nodes, problem.isGoal n.state = false

/-- A state that has been opened has no goal among its children. -/
theorem NoGoalYet.not_hasGoalChild (h : NoGoalYet problem start m opened) {e : DpNode S K}
    (he : e ∈ opened) : ¬problem.HasGoalChild e.state := by
  rintro ⟨g, c, hedge, hgoal⟩
  obtain ⟨x, hx, rfl, -⟩ := h.between.closed e he g c hedge
  rw [h.noGoal x hx] at hgoal
  cases hgoal

variable [IsOrderedAddMonoid K]

/-- Paths to states that have not been opened cost at least as much as the node that is opened next.
-/
theorem BetweenTurns.next_le (h : BetweenTurns problem start m opened)
    (hpos : ∀ s s' c, problem.Edge s s' c → 0 < c) {n : DpNode S K} (hn : Next m (some n)) {s : S}
    {c : K} (hpath : WeightedPath problem.Edge start s c) :
    (∃ e ∈ opened, e.state = s ∧ e.totalCost ≤ c) ∨ n.totalCost ≤ c := by
  have hlive : ∀ x ∈ m.nodes, (∃ e ∈ opened, e.state = x.state ∧ e.totalCost ≤ x.totalCost) ∨
      n.totalCost ≤ x.totalCost := fun x hx ↦ by
    obtain ⟨x', hx', hstate⟩ := h.searching.exists_live x hx
    have hle := h.searching.least x' hx' x hx hstate.symm
    rcases hx' with hactive | hopened
    · exact .inr ((hn.2 x' hactive).trans hle)
    · exact .inl ⟨x', hopened, hstate, hle⟩
  have hlabel : ∃ d ≤ c, (∃ e ∈ opened, e.state = s ∧ e.totalCost ≤ d) ∨ n.totalCost ≤ d := by
    refine hpath.exists_label_le
      (fun s d ↦ (∃ e ∈ opened, e.state = s ∧ e.totalCost ≤ d) ∨ n.totalCost ≤ d) ?_ ?_
    · obtain ⟨r, hr, -, hstate, hcost⟩ := h.searching.root
      rcases hlive r hr with ⟨e, he, hes, hle⟩ | hle
      · exact ⟨0, le_rfl, .inl ⟨e, he, hes.trans hstate, hcost ▸ hle⟩⟩
      · exact ⟨0, le_rfl, .inr (hcost ▸ hle)⟩
    · rintro v w d d' (⟨e, he, rfl, hle⟩ | hle) hedge
      · obtain ⟨x, hx, rfl, hxle⟩ := h.closed e he w d' hedge
        have hxle' := hxle.trans (add_le_add_left hle d')
        refine ⟨d + d', le_rfl, ?_⟩
        rcases hlive x hx with ⟨e', he', hes, hle'⟩ | hle'
        · exact .inl ⟨e', he', hes, hle'.trans hxle'⟩
        · exact .inr (hle'.trans hxle')
      · exact ⟨d + d', le_rfl, .inr (hle.trans (le_add_of_nonneg_right (hpos _ _ _ hedge).le))⟩
  obtain ⟨d, hd, ⟨e, he, hes, hle⟩ | hle⟩ := hlabel
  · exact .inl ⟨e, he, hes, hle.trans hd⟩
  · exact .inr (hle.trans hd)

/-- What the search leaves when it has found a goal: the cheapest child of a nearest state is its
best goal. -/
def EndsAtGoal (problem : SearchProblem S K) (start : S) (m : DpMain S K) : Prop :=
  ∃ s d goal, problem.Nearest start s d ∧ m.bestGoal problem = some goal ∧
    problem.isGoal goal.state = true ∧ IsLeast (problem.ChildCosts s d) goal.totalCost

variable (hsame : problem.ComparesStates) (hpos : ∀ s s' c, problem.Edge s s' c → 0 < c)
  (hastar : ∀ s s', problem.calcAstarCost s s' = 0)

include hsame hpos hastar

/-- The node that is opened when there is a goal afterwards. -/
theorem NoGoalYet.endsAtGoal (h : NoGoalYet problem start m opened) {n : DpNode S K}
    (hn : Next m (some n)) (hgoals : 0 < (DpMain.openNode problem (-1) (-1) n m).2.nGoals) :
    EndsAtGoal problem start (DpMain.openNode problem (-1) (-1) n m).2 := by
  have hmem := h.between.searching.active_mem hn.1
  obtain ⟨hcounts, hgrown⟩ := openChildren_counts (fun _ hc ↦ hc) h.counts hmem
  have hmax : ∀ e ∈ n :: opened, e.totalCost ≤ n.totalCost := fun e he ↦ by
    rcases List.mem_cons.1 he with rfl | he
    · exact le_rfl
    · exact h.between.searching.ordered e he n hn.1
  obtain ⟨hsearching, hnodes, -, hcover⟩ := (h.between.searching.opening hn.1 hn.2).openChildren
    hsame hpos hastar (fun _ hc ↦ hc) (.head _) hmax
  rw [openNode_eq] at hgoals ⊢
  set m' := (problem.createChildNodes n.state).foldl (DpMain.openChild problem n) m
  have hchild : ∀ x ∈ m'.nodes, problem.isGoal x.state = true →
      ∃ c, problem.Edge n.state x.state c ∧ x.totalCost = n.totalCost + c := fun x hx hgoal ↦
    (hgrown x hx).resolve_left fun hold ↦ by
      rw [h.noGoal x hold] at hgoal
      cases hgoal
  have hkey : ∀ x ∈ m'.nodes, problem.isGoal x.state = true →
      x.totalAstarCost = some x.totalCost := fun x hx hgoal ↦ by
    refine hsearching.key x hx fun hid ↦ ?_
    -- the start node is no goal
    obtain ⟨r, hr, hrid, -, -⟩ := h.between.searching.root
    rw [hsearching.id_inj x hx r (hnodes r hr) (hid.trans hrid.symm), h.noGoal r hr] at hgoal
    cases hgoal
  obtain ⟨x, hx, hgoal⟩ := hcounts.1 hgoals
  obtain ⟨c, hedge, -⟩ := hchild x hx hgoal
  have hnearest : problem.Nearest start n.state n.totalCost := by
    refine ⟨⟨⟨_, c, hedge, hgoal⟩, h.between.searching.path n hmem⟩, fun s' d' hs' hpath ↦ ?_⟩
    refine (h.between.next_le hpos hn hpath).resolve_left ?_
    rintro ⟨e, he, rfl, -⟩
    exact h.not_hasGoalChild he hs'
  obtain ⟨b, hb⟩ := (hsearching.mem_iff x).1 hx
  cases hbest : m'.bestGoal problem with
  | none =>
    have hnone := (DpQueue.first_eq_none _ m'.topQueue).1 hbest (x, b) hb
    rw [hgoal] at hnone
    cases hnone
  | some goal =>
    obtain ⟨active, hactive, hgoal'⟩ := DpQueue.mem_of_first hbest
    have hgoalmem := (hsearching.mem_iff goal).2 ⟨active, hactive⟩
    obtain ⟨c', hedge', hcost'⟩ := hchild goal hgoalmem hgoal'
    refine ⟨n.state, n.totalCost, goal, hnearest, hbest, hgoal',
      ⟨goal.state, c', hedge', hgoal', hcost'⟩, ?_⟩
    rintro _ ⟨g, cost, hg, hgg, rfl⟩
    obtain ⟨y, hy, rfl, hle⟩ := hcover g cost hg
    obtain ⟨b', hb'⟩ := (hsearching.mem_iff y).1 hy
    exact (hsearching.sorted.first_le hbest hb' hgg (hkey goal hgoalmem hgoal')
      (hkey y hy hgg)).trans hle

/-- One turn: either there is still no goal, or the search ends. -/
theorem NoGoalYet.turn (h : NoGoalYet problem start m opened) {n : DpNode S K}
    (hn : Next m (some n)) :
    ((DpMain.openNode problem (-1) 1 n m).1 = 0 ∧
      NoGoalYet problem start ((DpMain.openNode problem (-1) 1 n m).2.deactivate [n.id])
        (n :: opened)) ∨
      (DpMain.openNode problem (-1) 1 n m).1 ≠ 0 ∧
        EndsAtGoal problem start (DpMain.openNode problem (-1) 1 n m).2 := by
  have hmem := h.between.searching.active_mem hn.1
  have hnGoals : ¬0 < m.nGoals := fun hlt ↦ by
    obtain ⟨x, hx, hgoal⟩ := h.counts.1 hlt
    rw [h.noGoal x hx] at hgoal
    cases hgoal
  obtain ⟨hsnd, hfst⟩ := openNode_one n m fun _ ↦ by omega
  rw [hsnd]
  by_cases hgoals : 0 < (DpMain.openNode problem (-1) (-1) n m).2.nGoals
  · exact .inr ⟨hfst.2 hgoals, h.endsAtGoal hsame hpos hastar hn hgoals⟩
  · have hcounts : CountsGoals problem (DpMain.openNode problem (-1) (-1) n m).2 := by
      rw [openNode_eq]
      exact (openChildren_counts (fun _ hc ↦ hc) h.counts hmem).1
    refine .inl ⟨not_not.1 (mt hfst.1 hgoals), h.between.turn hsame hpos hastar hn,
      hcounts.deactivate _, fun x hx ↦ ?_⟩
    rw [← Bool.not_eq_true]
    exact fun hgoal ↦ hgoals (hcounts.2 ⟨x, hx, hgoal⟩)

/-- The whole loop: either no node is active any more, or it has ended at a goal. -/
theorem NoGoalYet.loop [Fintype S] {fuel : ℕ} (h : NoGoalYet problem start m opened)
    (hfuel : Fintype.card S < fuel + opened.length) {q : Option (DpNode S K)} (hq : Next m q)
    (hroot : (∃ e ∈ opened, e.id = 0) ∨ ∃ n, q = some n ∧ n.id = 0) :
    ∃ m', DpMain.searchLoop problem (-1) 1 fuel q m = some m' ∧
      ((∃ opened', NoGoalYet problem start m' opened' ∧ ∀ n, ¬m'.Active n) ∨
        EndsAtGoal problem start m') := by
  induction fuel generalizing m opened q with
  | zero =>
    have hle := h.between.nodup.length_le_card
    rw [List.length_map] at hle
    omega
  | succ fuel ih =>
    cases q with
    | none => exact ⟨m, rfl, .inl ⟨opened, h, hq⟩⟩
    | some n =>
      rw [DpMain.searchLoop]
      dsimp only
      rcases h.turn hsame hpos hastar hq with ⟨hret, hturn⟩ | ⟨hret, hend⟩
      · have hroot' : ∃ e ∈ n :: opened, e.id = 0 := by
          obtain ⟨e, he, hid⟩ | ⟨x, hx, hid⟩ := hroot
          · exact ⟨e, .tail _ he, hid⟩
          · exact ⟨n, .head _, (Option.some.inj hx) ▸ hid⟩
        rw [if_neg (not_not.2 hret)]
        refine ih hturn ?_ (hturn.between.next_smallest hroot') (.inl hroot')
        rw [List.length_cons]
        omega
      · rw [if_pos hret]
        exact ⟨_, rfl, .inr hend⟩

end Turn

/-! ### The result -/

section Result

variable [IsOrderedAddMonoid K]

section

omit [IsOrderedAddMonoid K]

end

end Result

end OpenHRP
