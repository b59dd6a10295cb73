import OpenHRP.Planner.RRT
import Mathlib.Algebra.Order.Field.Rat

/-!
# What an RRT path joins

While a call of `calcPath` runs, its two trees keep a shape (`Growing`): they are disjoint and
closed under their links, every chain of first parents in the forward tree leads to the start, and
every chain of first children in the backward tree to the goal. `extend` keeps it, because it only
adds a leaf (`extend_cases`); hence so do `connect` and the trials. The path that a successful call
reads back is a chain of the two (`extractPath_spec`).

On a fresh object this makes the path sound (`isSound_calcPath`). A later call finds the nodes of
the earlier ones in its forward tree, and its path still joins start and goal when these lead to
the start it is given (`joins_calcPath`); otherwise it may begin elsewhere.
-/

namespace OpenHRP.PathEngine

variable {C K : Type*}

namespace Heap

/-! ### Trees in the heap -/

/-- The nodes of a roadmap are allocated, and their first links stay inside of it. -/
structure IsClosed (h : Heap C) (r : RoadmapPtr) : Prop where
  lt : ∀ n ∈ (h.roadmap r).nodes, n < h.size
  link : ∀ n ∈ (h.roadmap r).nodes, ∀ reverse m, h.link reverse n = some m →
    m ∈ (h.roadmap r).nodes

/-- The chain of links from a node leads to `root`, and each of its links is in `R`. -/
def LeadsTo (h : Heap C) (reverse : Bool) (R : C → C → Prop) (root : C) : NodePtr → Prop :=
  Leads (h.link reverse) (fun n m ↦ R (h.position n) (h.position m)) fun n ↦ h.position n = root

/-- The last node added to a roadmap is at `q` and has a link. -/
def Tip (h : Heap C) (r : RoadmapPtr) (reverse : Bool) (q : C) : Prop :=
  ∃ n, h.lastAddedNode r = some n ∧ h.position n = q ∧ ∃ m, h.link reverse n = some m

variable {h : Heap C} {tree r : RoadmapPtr} {minNode : NodePtr} {q root : C} {reverse : Bool}
  {R : C → C → Prop}

theorem IsClosed.ne_size (hr : h.IsClosed r) {n : NodePtr} (hn : n ∈ (h.roadmap r).nodes) :
    n ≠ h.size :=
  (hr.lt n hn).ne

theorem IsClosed.grow_self (htree : h.IsClosed tree) (hmin : minNode ∈ (h.roadmap tree).nodes) :
    (h.grow tree minNode q reverse).IsClosed tree := by
  have hne := htree.ne_size hmin
  constructor
  · intro n hn
    rw [nodes_grow_self] at hn
    rw [size_grow]
    rcases List.mem_append.1 hn with hn | hn
    · exact (htree.lt n hn).trans (Nat.lt_succ_self _)
    · exact (List.mem_singleton.1 hn) ▸ Nat.lt_succ_self _
  · intro n hn b m hlink
    rw [nodes_grow_self] at hn ⊢
    rcases h.link_grow_cases hne hlink with ⟨-, rfl⟩ | ⟨-, rfl⟩ | ⟨hns, hold⟩
    · exact List.mem_append_left _ hmin
    · exact List.mem_append_right _ (List.mem_singleton_self _)
    · have hmem : n ∈ (h.roadmap tree).nodes := (List.mem_append.1 hn).resolve_right fun hs ↦
        hns (List.mem_singleton.1 hs)
      exact List.mem_append_left _ (htree.link n hmem b m hold)

theorem IsClosed.grow_other (hr : h.IsClosed r) (hrt : r ≠ tree) (hne : minNode ≠ h.size)
    (hmin : minNode ∉ (h.roadmap r).nodes) : (h.grow tree minNode q reverse).IsClosed r := by
  constructor
  · intro n hn
    rw [h.nodes_grow_of_ne hrt] at hn
    rw [size_grow]
    exact (hr.lt n hn).trans (Nat.lt_succ_self _)
  · intro n hn b m hlink
    rw [h.nodes_grow_of_ne hrt] at hn ⊢
    rw [h.link_grow_other hne (hr.ne_size hn) (ne_of_mem_of_not_mem hn hmin)] at hlink
    exact hr.link n hn b m hlink

/-- A new leaf leads where the node it is joined to leads, and the old nodes lead where they did. -/
theorem LeadsTo.grow_self (htree : h.IsClosed tree) (hmin : minNode ∈ (h.roadmap tree).nodes)
    (hR : R q (h.position minNode))
    (hleads : ∀ n ∈ (h.roadmap tree).nodes, h.LeadsTo reverse R root n) :
    ∀ n ∈ ((h.grow tree minNode q reverse).roadmap tree).nodes,
      (h.grow tree minNode q reverse).LeadsTo reverse R root n := by
  have hne := htree.ne_size hmin
  have hold : ∀ n ∈ (h.roadmap tree).nodes,
      (h.grow tree minNode q reverse).LeadsTo reverse R root n := fun n hn ↦
    (hleads n hn).congr hn (fun a b ha hb ↦ htree.link a ha _ b hb)
      (fun a ha ↦ h.link_grow_of_ne hne (htree.ne_size ha))
      (fun a b ha hb hab ↦ by
        rwa [h.position_grow_of_ne hne (htree.ne_size ha),
          h.position_grow_of_ne hne (htree.ne_size hb)])
      fun a ha hroot ↦ by rwa [h.position_grow_of_ne hne (htree.ne_size ha)]
  intro n hn
  rw [nodes_grow_self] at hn
  rcases List.mem_append.1 hn with hn | hn
  · exact hold n hn
  · rw [List.mem_singleton.1 hn]
    refine .link (h.link_grow_self hne) ?_ (hold minNode hmin)
    rwa [h.position_grow_self hne, h.position_grow_of_ne hne hne]

theorem LeadsTo.grow_other (hr : h.IsClosed r) (hne : minNode ≠ h.size)
    (hmin : minNode ∉ (h.roadmap r).nodes) {b : Bool} {n : NodePtr}
    (hn : n ∈ (h.roadmap r).nodes) (hleads : h.LeadsTo b R root n) :
    (h.grow tree minNode q reverse).LeadsTo b R root n :=
  Leads.congr hleads hn (fun a m ha hm ↦ hr.link a ha _ m hm)
    (fun a ha ↦ h.link_grow_other hne (hr.ne_size ha) (ne_of_mem_of_not_mem ha hmin) b)
    (fun a m ha hm ham ↦ by
      rwa [h.position_grow_of_ne hne (hr.ne_size ha), h.position_grow_of_ne hne (hr.ne_size hm)])
    fun a ha hroot ↦ by rwa [h.position_grow_of_ne hne (hr.ne_size ha)]

theorem tip_grow_self (hne : minNode ≠ h.size) :
    (h.grow tree minNode q reverse).Tip tree reverse q := by
  refine ⟨h.size, ?_, h.position_grow_self hne, minNode, h.link_grow_self hne⟩
  rw [lastAddedNode, nodes_grow_self, List.getLast?_append]
  rfl

theorem Tip.grow_other (hr : h.IsClosed r) (hrt : r ≠ tree) (hne : minNode ≠ h.size)
    (hmin : minNode ∉ (h.roadmap r).nodes) {b : Bool} {q' : C} (htip : h.Tip r b q') :
    (h.grow tree minNode q reverse).Tip r b q' := by
  obtain ⟨n, hlast, hpos, m, hlink⟩ := htip
  have hn : n ∈ (h.roadmap r).nodes := List.mem_of_getLast? hlast
  refine ⟨n, ?_, ?_, m, ?_⟩
  · rw [lastAddedNode, h.nodes_grow_of_ne hrt]
    exact hlast
  · rw [h.position_grow_of_ne hne (hr.ne_size hn), hpos]
  · rw [h.link_grow_other hne (hr.ne_size hn) (ne_of_mem_of_not_mem hn hmin), hlink]

/-- Two trees, the forward one (`tree false`) and the backward one (`tree true`): disjoint, closed
under their links and not empty. A tree with a root leads to it through links in `R`. -/
structure Trees (R : Bool → C → C → Prop) (h : Heap C) (tree : Bool → RoadmapPtr)
    (root : Bool → Option C) : Prop where
  ne : ∀ b, tree (!b) ≠ tree b
  closed : ∀ b, h.IsClosed (tree b)
  disjoint : ∀ b, ∀ n ∈ (h.roadmap (tree b)).nodes, n ∉ (h.roadmap (tree !b)).nodes
  leads : ∀ b r, root b = some r → ∀ n ∈ (h.roadmap (tree b)).nodes, h.LeadsTo b (R b) r n
  ne_nil : ∀ b, (h.roadmap (tree b)).nodes ≠ []

/-- Either tree grows by a leaf, and the two stay what they are. -/
theorem Trees.grow {R : Bool → C → C → Prop} {tree : Bool → RoadmapPtr} {root : Bool → Option C}
    (ht : h.Trees R tree root) {b : Bool} (hmin : minNode ∈ (h.roadmap (tree b)).nodes)
    (hR : R b q (h.position minNode)) : (h.grow (tree b) minNode q b).Trees R tree root := by
  have hne := (ht.closed b).ne_size hmin
  have hother := ht.disjoint b _ hmin
  have hself :=
    (Heap.nodes_grow_self h : ((h.grow (tree b) minNode q b).roadmap (tree b)).nodes = _)
  have hrest := (h.nodes_grow_of_ne (ht.ne b) :
    ((h.grow (tree b) minNode q b).roadmap (tree !b)).nodes = _)
  have hcases : ∀ b', b' = b ∨ b' = !b := fun b' ↦ by cases b <;> cases b' <;> simp
  refine ⟨ht.ne, fun b' ↦ ?_, fun b' n hn ↦ ?_, fun b' r hr n hn ↦ ?_, fun b' ↦ ?_⟩
  · rcases hcases b' with rfl | rfl
    · exact (ht.closed b').grow_self hmin
    · exact (ht.closed !b).grow_other (ht.ne b) hne hother
  · rcases hcases b' with rfl | rfl
    · rw [hself] at hn
      rw [hrest]
      rcases List.mem_append.1 hn with hn | hn
      · exact ht.disjoint b' n hn
      · exact fun hn' ↦ (ht.closed !b').ne_size hn' (List.mem_singleton.1 hn)
    · rw [hrest] at hn
      rw [Bool.not_not, hself]
      intro hn'
      rcases List.mem_append.1 hn' with hn' | hn'
      · exact ht.disjoint b n hn' hn
      · exact (ht.closed !b).ne_size hn (List.mem_singleton.1 hn')
  · rcases hcases b' with rfl | rfl
    · exact LeadsTo.grow_self (ht.closed b') hmin hR (ht.leads b' r hr) n hn
    · rw [hrest] at hn
      exact LeadsTo.grow_other (ht.closed !b) hne hother hn (ht.leads _ r hr n hn)
  · rcases hcases b' with rfl | rfl
    · rw [hself]
      exact List.concat_ne_nil _ _
    · rw [hrest]
      exact ht.ne_nil !b

end Heap

namespace RRT

/-- The forward tree and the backward tree. -/
def tree (s : RRT C K) (reverse : Bool) : RoadmapPtr :=
  if reverse then s.Tgoal else s.Tstart

/-- The invariant of a call. -/
structure Growing (R : Bool → C → C → Prop) (root : Bool → Option C) (s : RRT C K) : Prop where
  turn : s.Ta = s.Tstart ∧ s.Tb = s.Tgoal ∨ s.Ta = s.Tgoal ∧ s.Tb = s.Tstart
  trees : s.heap.Trees R s.tree root

/-- What extensions of a tree change: the heap, and which tree was extended last. -/
structure Extends (R : Bool → C → C → Prop) (root : Bool → Option C) (reverse : Bool)
    (s s' : RRT C K) : Prop where
  rest : ∃ tree h, s' = s.extended tree h
  growing : Growing R root s'
  tip : ∀ q, s.heap.Tip (s.tree !reverse) (!reverse) q → s'.heap.Tip (s.tree !reverse) (!reverse) q

section Calls

variable [Field K] [LinearOrder K] (planner : PathPlanner C K)

/-- A link from `a` to `b` that the planner may make in a tree: a move between the two is possible
in the direction of the tree, and `a` was found collision-free. -/
def Linked (reverse : Bool) (a b : C) : Prop :=
  (if reverse then planner.mobility.isReachable a b else planner.mobility.isReachable b a) = true ∧
    planner.checkCollision a = false

variable {planner} {R : Bool → C → C → Prop} {root : Bool → Option C} {s s' : RRT C K} {q q' : C}
  {reverse b : Bool} {r : ExtendResult} {fuel : ℕ}

/-- What a step of a tree can do: nothing, or grow the tree by a leaf. -/
theorem extend_cases {tree : RoadmapPtr} (hext : s.extend planner tree q reverse = (s', q', r)) :
    (r = .trapped ∧ s' = s.extended tree s.heap) ∨
    (r ≠ .trapped ∧ (r = .reached → q' = q) ∧
      ∃ minNode ∈ (s.heap.roadmap tree).nodes,
        Linked planner reverse q' (s.heap.position minNode) ∧
        s' = s.extended tree (s.heap.grow tree minNode q' reverse)) := by
  rw [extend] at hext
  split at hext
  · cases hext
    exact .inl ⟨rfl, rfl⟩
  · next minNode min hnear =>
    have hmem := (Heap.findNearestNode_spec hnear).1
    dsimp only at hext
    generalize hq₁ : (if s.eps < min then
      planner.mobility.interpolate (s.heap.position minNode) q (s.eps / min) else q) = q₁ at hext
    -- the target is left as it is exactly when the nearest node is within eps
    have hret : (if min ≤ s.eps then ExtendResult.reached else .advanced) ≠ .trapped ∧
        ((if min ≤ s.eps then ExtendResult.reached else .advanced) = .reached → q₁ = q) := by
      by_cases hle : min ≤ s.eps
      · rw [if_pos hle, ← hq₁, if_neg (not_lt.2 hle)]
        exact ⟨by decide, fun _ ↦ rfl⟩
      · rw [if_neg hle]
        exact ⟨by decide, fun hc ↦ by cases hc⟩
    split at hext
    · cases hext
      exact .inl ⟨rfl, rfl⟩
    · next hfree =>
      have hfree := Bool.eq_false_iff.2 hfree
      split at hext
      · next hrev =>
        subst hrev
        split at hext
        · next hreach =>
          cases hext
          exact .inr ⟨hret.1, hret.2, minNode, hmem, ⟨hreach, hfree⟩, rfl⟩
        · cases hext
          exact .inl ⟨rfl, rfl⟩
      · next hrev =>
        rw [Bool.not_eq_true] at hrev
        subst hrev
        split at hext
        · next hreach =>
          cases hext
          exact .inr ⟨hret.1, hret.2, minNode, hmem, ⟨hreach, hfree⟩, rfl⟩
        · cases hext
          exact .inl ⟨rfl, rfl⟩

/-- One step of either tree keeps the invariant; unless it is trapped, the tree has a new tip. -/
theorem Growing.extend (hs : Growing R root s) (reverse : Bool)
    (hR : ∀ b q₁ q₂, Linked planner b q₁ q₂ → R b q₁ q₂)
    (hext : s.extend planner (s.tree reverse) q reverse = (s', q', r)) :
    Extends R root reverse s s' ∧ (r ≠ .trapped → s'.heap.Tip (s.tree reverse) reverse q') ∧
      (r = .reached → q' = q) := by
  rcases extend_cases hext with ⟨rfl, rfl⟩ | ⟨-, hq, minNode, hmin, hlink, rfl⟩
  · exact ⟨⟨⟨_, _, rfl⟩, ⟨hs.turn, hs.trees⟩, fun _ htip ↦ htip⟩, fun hc ↦ absurd rfl hc,
      fun hc ↦ by cases hc⟩
  · have hne := (hs.trees.closed reverse).ne_size hmin
    exact ⟨⟨⟨_, _, rfl⟩, ⟨hs.turn, hs.trees.grow hmin (hR _ _ _ hlink)⟩, fun _ htip ↦
      htip.grow_other (hs.trees.closed _) (hs.trees.ne reverse) hne (hs.trees.disjoint _ _ hmin)⟩,
      fun _ ↦ Heap.tip_grow_self hne, hq⟩

omit [Field K] [LinearOrder K] in
theorem Extends.trans {s₁ s₂ s₃ : RRT C K} (h₁ : Extends R root reverse s₁ s₂)
    (h₂ : Extends R root reverse s₂ s₃) : Extends R root reverse s₁ s₃ := by
  obtain ⟨t₁, h, rfl⟩ := h₁.rest
  obtain ⟨t₂, h', rfl⟩ := h₂.rest
  exact ⟨⟨t₂, h', rfl⟩, h₂.growing, fun q htip ↦ h₂.tip q (h₁.tip q htip)⟩

/-- The loop of `connect` keeps the invariant; when the tree has arrived, its tip is at the
target. -/
theorem Growing.connect (hs : Growing R root s) (reverse : Bool)
    (hR : ∀ b q₁ q₂, Linked planner b q₁ q₂ → R b q₁ q₂)
    (hcon : s.connect planner fuel (s.tree reverse) q reverse = .ok (s', r)) :
    Extends R root reverse s s' ∧ (r = .reached → s'.heap.Tip (s.tree reverse) reverse q) := by
  induction fuel generalizing s with
  | zero => cases hcon
  | succ fuel ih =>
    rw [RRT.connect] at hcon
    split at hcon
    · next s₁ q₁ hext =>
      obtain ⟨hstep, -, -⟩ := hs.extend _ hR hext
      obtain ⟨t, h, rfl⟩ := hstep.rest
      obtain ⟨hrest, htip⟩ := ih hstep.growing hcon
      exact ⟨hstep.trans hrest, htip⟩
    · next s₁ q₁ r₁ hne hext =>
      cases hcon
      obtain ⟨hstep, htip, hq⟩ := hs.extend _ hR hext
      refine ⟨hstep, fun hreached ↦ ?_⟩
      have := htip (by rw [hreached]; decide)
      rwa [hq hreached] at this

/-- The trees have met: the forward tree has arrived at the goal or, when both trees grow, at the
tip of the backward tree. -/
def Met (s : RRT C K) : Prop :=
  s.extendFromStart = true ∧
    (s.extendFromGoal = true → ∃ q, s.heap.Tip s.Tstart false q ∧ s.heap.Tip s.Tgoal true q) ∧
    (s.extendFromGoal = false → s.heap.Tip s.Tstart false s.goal)

/-- Two states of one call: the same query on the same two roadmaps. -/
structure SameQuery (s s' : RRT C K) : Prop where
  start : s'.start = s.start
  goal : s'.goal = s.goal
  Tstart : s'.Tstart = s.Tstart
  Tgoal : s'.Tgoal = s.Tgoal

section

omit [Field K] [LinearOrder K]

theorem SameQuery.trans {s₁ s₂ s₃ : RRT C K} (h₁ : SameQuery s₁ s₂) (h₂ : SameQuery s₂ s₃) :
    SameQuery s₁ s₃ :=
  ⟨h₂.start.trans h₁.start, h₂.goal.trans h₁.goal, h₂.Tstart.trans h₁.Tstart,
    h₂.Tgoal.trans h₁.Tgoal⟩

theorem Growing.swapTrees (hs : Growing R root s) : Growing R root s.swapTrees :=
  ⟨hs.turn.symm.imp (fun h ↦ ⟨h.2, h.1⟩) fun h ↦ ⟨h.2, h.1⟩, hs.trees⟩

/-- Whose turn it is, and that the source's pointer comparison tells its direction. -/
theorem Growing.exists_turn (hs : Growing R root s) : ∃ b, s.Ta = s.tree b ∧ s.Tb = s.tree (!b) ∧
    (s.Tb == s.Tstart) = b ∧ (s.Ta == s.Tstart) = !b := by
  have hne : s.Tgoal ≠ s.Tstart := hs.trees.ne false
  rcases hs.turn with ⟨ha, hb⟩ | ⟨ha, hb⟩
  · exact ⟨false, ha, hb, by rw [hb]; exact beq_false_of_ne hne, by
      rw [ha]; exact beq_self_eq_true _⟩
  · exact ⟨true, ha, hb, by rw [hb]; exact beq_self_eq_true _,
      by rw [ha]; exact beq_false_of_ne hne⟩

end

theorem Growing.extendTowards (hs : Growing R root s)
    (hR : ∀ b q₁ q₂, Linked planner b q₁ q₂ → R b q₁ q₂)
    (hone : s.extendTowards planner fuel q = .ok (s', b)) :
    Growing R root s' ∧ SameQuery s s' ∧ (b = true → Met s') := by
  rw [RRT.extendTowards] at hone
  split at hone
  · next hboth =>
    obtain ⟨hstart, hgoal⟩ := Bool.and_eq_true_iff.1 hboth
    obtain ⟨b', hTa, hTb, hrevA, hrevB⟩ := hs.exists_turn
    rw [hrevA, hTa] at hone
    split at hone
    · next s₁ q₁ hext =>
      cases hone
      obtain ⟨⟨⟨t, h, rfl⟩, hgrow, -⟩, -, -⟩ := hs.extend _ hR hext
      exact ⟨hgrow.swapTrees, ⟨rfl, rfl, rfl, rfl⟩, fun hc ↦ by cases hc⟩
    · next s₁ q₁ r₁ hne hext =>
      obtain ⟨⟨⟨t, h, rfl⟩, hgrow, -⟩, htip, -⟩ := hs.extend _ hR hext
      have htipA := htip hne
      rw [show ((s.extended t h).Ta == (s.extended t h).Tstart) = !b' from hrevB,
        show (s.extended t h).Tb = (s.extended t h).tree !b' from hTb] at hone
      split at hone
      · cases hone
      · next s₂ hcon =>
        obtain ⟨⟨⟨t', h', rfl⟩, hgrow', hkeep⟩, htipB⟩ := hgrow.connect (!b') hR hcon
        have htips : ∃ q, h'.Tip s.Tstart false q ∧ h'.Tip s.Tgoal true q := by
          have hkeepA := hkeep q₁
          rw [Bool.not_not] at hkeepA
          cases b' with
          | false => exact ⟨q₁, hkeepA htipA, htipB rfl⟩
          | true => exact ⟨q₁, htipB rfl, hkeepA htipA⟩
        have hmet : Met ((s.extended t h).extended t' h') :=
          ⟨hstart, fun _ ↦ htips, fun hc ↦ absurd (hgoal.symm.trans hc) (by decide)⟩
        split at hone
        · split at hone
          · cases hone
          · cases hone
            exact ⟨hgrow', ⟨rfl, rfl, rfl, rfl⟩, fun _ ↦ hmet⟩
        · cases hone
          exact ⟨hgrow', ⟨rfl, rfl, rfl, rfl⟩, fun _ ↦ hmet⟩
      · next s₂ ret hnot hcon =>
        cases hone
        obtain ⟨⟨⟨t', h', rfl⟩, hgrow', -⟩, -⟩ := hgrow.connect (!b') hR hcon
        exact ⟨hgrow'.swapTrees, ⟨rfl, rfl, rfl, rfl⟩, fun hc ↦ by cases hc⟩
  · next hboth =>
    split at hone
    · next hstart =>
      have hgoal : s.extendFromGoal = false := by
        rw [Bool.and_eq_true_iff, not_and] at hboth
        exact Bool.eq_false_iff.2 (hboth hstart)
      split at hone
      · next s₁ q₁ hext =>
        cases hone
        obtain ⟨⟨⟨t, h, rfl⟩, hgrow, -⟩, -, -⟩ := hs.extend false hR hext
        exact ⟨hgrow, ⟨rfl, rfl, rfl, rfl⟩, fun hc ↦ by cases hc⟩
      · next s₁ q₁ r₁ hne hext =>
        obtain ⟨⟨⟨t, h, rfl⟩, hgrow, -⟩, -, -⟩ := hs.extend false hR hext
        split at hone
        · cases hone
        · next s₂ ret hcon =>
          cases hone
          obtain ⟨⟨⟨t', h', rfl⟩, hgrow', -⟩, htip⟩ := hgrow.connect false hR hcon
          exact ⟨hgrow', ⟨rfl, rfl, rfl, rfl⟩, fun hret ↦ ⟨hstart, fun hc ↦
            absurd (hgoal.symm.trans hc) (by decide), fun _ ↦ htip (eq_of_beq hret)⟩⟩
    · cases hone
      exact ⟨hs, ⟨rfl, rfl, rfl, rfl⟩, fun hc ↦ by cases hc⟩

/-- The trials keep the invariant; when one succeeds, the trees have met. -/
theorem Growing.trials {times : ℕ} (hs : Growing R root s)
    (hR : ∀ b q₁ q₂, Linked planner b q₁ q₂ → R b q₁ q₂)
    (htrials : s.trials planner fuel times = .ok (s', b)) :
    Growing R root s' ∧ SameQuery s s' ∧ (b = true → Met s') := by
  induction times generalizing s with
  | zero =>
    cases htrials
    exact ⟨hs, ⟨rfl, rfl, rfl, rfl⟩, fun hc ↦ by cases hc⟩
  | succ times ih =>
    rw [RRT.trials, extendOneStep] at htrials
    have hs₀ : Growing R root { s with draws := s.draws + 1 } := ⟨hs.turn, hs.trees⟩
    have hsame₀ : SameQuery s { s with draws := s.draws + 1 } := ⟨rfl, rfl, rfl, rfl⟩
    split at htrials
    · cases htrials
    · next s₁ hone =>
      cases htrials
      obtain ⟨hgrow, hsame, hmet⟩ := hs₀.extendTowards hR hone
      exact ⟨hgrow, hsame₀.trans hsame, hmet⟩
    · next s₁ hone =>
      obtain ⟨hgrow, hsame, -⟩ := hs₀.extendTowards hR hone
      obtain ⟨hgrow', hsame', hmet⟩ := ih hgrow htrials
      exact ⟨hgrow', (hsame₀.trans hsame).trans hsame', hmet⟩

/-! ### Reading the path back -/

section

omit [Field K] [LinearOrder K]

/-- What is read back from a node of a tree: the configurations from it to the root. -/
theorem Growing.readBack (hs : Growing R root s) {n : NodePtr} {l : List C} {r : C}
    (hr : root reverse = some r) (hn : n ∈ (s.heap.roadmap (s.tree reverse)).nodes)
    (hread : readBack fuel s.heap reverse n = .ok l) :
    (∃ tl, l = s.heap.position n :: tl) ∧ l.IsChain (R reverse) ∧
      l.getLast? = some r := by
  rw [RRT.readBack] at hread
  split at hread
  · cases hread
  · next nodes hwalk =>
    cases hread
    obtain ⟨⟨tl, rfl⟩, hchain, n', hlast, hroot⟩ :=
      (hs.trees.leads reverse r hr n hn).walk_spec hwalk
    refine ⟨⟨tl.map s.heap.position, rfl⟩, (List.isChain_map _).2 hchain, ?_⟩
    rw [List.getLast?_map, hlast, Option.map_some, hroot]

/-- The path read back when the trees have met: the chain of the forward tree up to some `q`,
reversed, and the chain of the backward tree that continues from `q`. -/
theorem Growing.extractPath (hs : Growing R root s) (hrootA : root false = some s.start)
    (hrootB : root true = some s.goal) (hmet : Met s) {path : List C}
    (hpath : s.extractPath fuel = .ok path) :
    ∃ q front back, path = (q :: front).reverse ++ back ∧
      (q :: front).IsChain (R false) ∧ (q :: front).getLast? = some s.start ∧
      (q :: back).IsChain (R true) ∧ (q :: back).getLast? = some s.goal := by
  obtain ⟨hstart, hboth, hone⟩ := hmet
  rw [RRT.extractPath] at hpath
  split at hpath
  · next n m hn hm =>
    have hnmem : n ∈ (s.heap.roadmap (s.tree false)).nodes := List.mem_of_getLast? hn
    have hmmem : m ∈ (s.heap.roadmap (s.tree true)).nodes := List.mem_of_getLast? hm
    split at hpath
    · cases hpath
    · next l hfront =>
      rw [readForward, if_pos hstart] at hfront
      obtain ⟨⟨front, rfl⟩, hchain, hlast⟩ := hs.readBack hrootA hnmem hfront
      split at hpath
      · cases hpath
      · next back hback =>
        cases hpath
        cases hgoal : s.extendFromGoal with
        | false =>
          rw [readBackward, hgoal] at hback
          cases hback
          obtain ⟨n', hn', hpos, -⟩ := hone hgoal
          obtain rfl : n = n' := Option.some.inj (hn.symm.trans hn')
          exact ⟨_, front, [], rfl, hchain, hlast, .singleton _, congrArg some hpos⟩
        | true =>
          obtain ⟨q, ⟨n', hn', hposn, -⟩, m', hm', hposm, child, hchild⟩ := hboth hgoal
          obtain rfl : n = n' := Option.some.inj (hn.symm.trans hn')
          obtain rfl : m = m' := Option.some.inj (hm.symm.trans hm')
          have hchildmem := (hs.trees.closed true).link m hmmem _ _ hchild
          -- the backward tree goes on from `m` to its child
          have hlink : R true (s.heap.position m) (s.heap.position child) := by
            cases hs.trees.leads true s.goal hrootB m hmmem with
            | root hnone _ => rw [hnone] at hchild; cases hchild
            | link hsome hrel _ =>
              rw [hsome] at hchild
              cases hchild
              exact hrel
          rw [readBackward, if_pos hgoal, if_pos hstart,
            show (s.heap.node m).child 0 = some child from hchild] at hback
          obtain ⟨⟨tl, rfl⟩, hchain', hlast'⟩ := hs.readBack hrootB hchildmem hback
          rw [hposm, ← hposn] at hlink
          exact ⟨_, front, _, rfl, hchain, hlast, .cons_cons hlink hchain',
            by rw [List.getLast?_cons_cons]; exact hlast'⟩
  · next hnone =>
    -- the forward tree has a last node by the last step, the backward tree is not empty
    obtain ⟨m, hm⟩ : ∃ m, s.heap.lastAddedNode s.Tgoal = some m :=
      ⟨_, List.getLast?_eq_some_getLast (hs.trees.ne_nil true)⟩
    obtain ⟨n, hn⟩ : ∃ n, s.heap.lastAddedNode s.Tstart = some n :=
      ⟨_, List.getLast?_eq_some_getLast (hs.trees.ne_nil false)⟩
    exact absurd hm (hnone n m hn)

end

/-! ### A whole call -/

/-- Between two calls: the forward tree is closed under its links, the backward tree is empty. -/
structure Idle (s : RRT C K) : Prop where
  ne : s.Tstart ≠ s.Tgoal
  turn : s.Ta = s.Tstart ∧ s.Tb = s.Tgoal ∨ s.Ta = s.Tgoal ∧ s.Tb = s.Tstart
  closed : s.heap.IsClosed s.Tstart
  nodes_goal : (s.heap.roadmap s.Tgoal).nodes = []

section Plant

omit [Field K] [LinearOrder K]

theorem nodes_plant_start (hne : s.Tstart ≠ s.Tgoal) :
    (s.plant.heap.roadmap s.Tstart).nodes = (s.heap.roadmap s.Tstart).nodes ++ [s.heap.size] := by
  simp [plant, Heap.newNode, Heap.addNode, hne]

theorem nodes_plant_goal (hne : s.Tstart ≠ s.Tgoal) :
    (s.plant.heap.roadmap s.Tgoal).nodes =
      (s.heap.roadmap s.Tgoal).nodes ++ [s.heap.size + 1] := by
  simp [plant, Heap.newNode, Heap.addNode, hne.symm]

theorem node_plant (n : NodePtr) : s.plant.heap.node n =
    if n = s.heap.size + 1 then ⟨[], [], s.goal⟩
    else if n = s.heap.size then ⟨[], [], s.start⟩ else s.heap.node n := by
  show Function.update (Function.update s.heap.node _ _) (s.heap.size + 1) _ n = _
  rw [Function.update_apply, Function.update_apply]

/-- The state in which the trials begin meets the invariant, when the nodes that the forward tree
already has lead to its root. -/
theorem Idle.plant (hs : Idle s) (hforward : root false = none ∨ root false = some s.start ∧
      ∀ n ∈ (s.heap.roadmap s.Tstart).nodes, s.heap.LeadsTo false (R false) s.start n)
    (hbackward : root true = none ∨ root true = some s.goal) : Growing R root s.plant := by
  have hold : ∀ n < s.heap.size, s.plant.heap.node n = s.heap.node n := fun n hn ↦ by
    rw [node_plant, if_neg (hn.trans (Nat.lt_succ_self _)).ne, if_neg hn.ne]
  have hnodes : ∀ b, (s.plant.heap.roadmap (s.plant.tree b)).nodes =
      if b then [s.heap.size + 1] else (s.heap.roadmap s.Tstart).nodes ++ [s.heap.size] :=
        fun b ↦ by
    cases b
    · exact nodes_plant_start hs.ne
    · exact (nodes_plant_goal hs.ne).trans (by rw [hs.nodes_goal]; rfl)
  have hnew : ∀ b n, n = s.heap.size + 1 ∨ n = s.heap.size → s.plant.heap.link b n = none := by
    rintro b n (rfl | rfl) <;> cases b <;> simp [Heap.link, node_plant, RoadmapNode.parent,
      RoadmapNode.child]
  have hlink : ∀ b, ∀ n < s.heap.size, s.plant.heap.link b n = s.heap.link b n := fun b n hn ↦ by
    rw [Heap.link, Heap.link, hold n hn]
  have hstart : s.plant.heap.position s.heap.size = s.start := by
    rw [Heap.position, node_plant, if_neg (Nat.lt_succ_self _).ne, if_pos rfl]
  have hgoal : s.plant.heap.position (s.heap.size + 1) = s.goal := by
    rw [Heap.position, node_plant, if_pos rfl]
  have hpos : ∀ n < s.heap.size, s.plant.heap.position n = s.heap.position n := fun n hn ↦ by
    rw [Heap.position, Heap.position, hold n hn]
  have hlt := hs.closed.lt
  refine ⟨hs.turn, ⟨fun b ↦ ?_, fun b ↦ ⟨fun n hn ↦ ?_, fun n hn b' m hm ↦ ?_⟩,
    fun b n hn hn' ↦ ?_, fun b r hr n hn ↦ ?_, fun b ↦ ?_⟩⟩
  · cases b
    · exact hs.ne.symm
    · exact hs.ne
  · show n < s.heap.size + 1 + 1
    rw [hnodes] at hn
    cases b
    · rcases List.mem_append.1 hn with hn | hn
      · exact (hlt n hn).trans (Nat.lt_succ_of_lt (Nat.lt_succ_self _))
      · exact (List.mem_singleton.1 hn) ▸ Nat.lt_succ_of_lt (Nat.lt_succ_self _)
    · exact (List.mem_singleton.1 hn) ▸ Nat.lt_succ_self _
  · rw [hnodes] at hn ⊢
    cases b
    · rcases List.mem_append.1 hn with hn | hn
      · rw [hlink b' n (hlt n hn)] at hm
        exact List.mem_append_left _ (hs.closed.link n hn b' m hm)
      · rw [hnew b' n (.inr (List.mem_singleton.1 hn))] at hm
        cases hm
    · rw [hnew b' n (.inl (List.mem_singleton.1 hn))] at hm
      cases hm
  · have hne : ∀ n, n ∈ (s.heap.roadmap s.Tstart).nodes ++ [s.heap.size] →
        n ≠ s.heap.size + 1 := fun n hn ↦ by
      rcases List.mem_append.1 hn with hn | hn
      · exact ((hlt n hn).trans (Nat.lt_succ_self _)).ne
      · exact (List.mem_singleton.1 hn) ▸ (Nat.lt_succ_self _).ne
    rw [hnodes] at hn hn'
    cases b
    · exact hne n hn (List.mem_singleton.1 hn')
    · exact hne n hn' (List.mem_singleton.1 hn)
  · rw [hnodes] at hn
    cases b
    · rcases hforward with hnone | ⟨hsome, hleads⟩
      · rw [hnone] at hr; cases hr
      · obtain rfl : s.start = r := Option.some.inj (hsome.symm.trans hr)
        rcases List.mem_append.1 hn with hn | hn
        · exact (hleads n hn).congr hn (fun a m ha hm ↦ hs.closed.link a ha _ m hm)
            (fun a ha ↦ hlink false a (hlt a ha))
            (fun a m ha hm ham ↦ by rwa [hpos a (hlt a ha), hpos m (hlt m hm)])
            fun a ha hroot ↦ by rwa [hpos a (hlt a ha)]
        · rw [List.mem_singleton.1 hn]
          exact .root (hnew false _ (.inr rfl)) hstart
    · rcases hbackward with hnone | hsome
      · rw [hnone] at hr; cases hr
      · obtain rfl : s.goal = r := Option.some.inj (hsome.symm.trans hr)
        rw [List.mem_singleton.1 hn]
        exact .root (hnew true _ (.inl rfl)) hgoal
  · rw [hnodes]
    cases b
    · exact List.concat_ne_nil _ _
    · exact List.cons_ne_nil _ _

end Plant

/-- The path of a call that succeeds, when the nodes that the forward tree has before the call lead
to the start. -/
theorem Idle.path_calcPath (hs : Idle s) (hR : ∀ b q₁ q₂, Linked planner b q₁ q₂ → R b q₁ q₂)
    (hforward : ∀ n ∈ (s.heap.roadmap s.Tstart).nodes, s.heap.LeadsTo false (R false) s.start n)
    (hcalc : s.calcPath planner fuel = .ok (s', true)) :
    ∃ q front back, s'.path = (q :: front).reverse ++ back ∧
      (q :: front).IsChain (R false) ∧ (q :: front).getLast? = some s.start ∧
      (q :: back).IsChain (R true) ∧ (q :: back).getLast? = some s.goal := by
  rw [calcPath] at hcalc
  split at hcalc
  · cases hcalc
  · next s₁ b htrials =>
    have hplant : Growing R (fun b ↦ some (if b then s.goal else s.start)) s.plant :=
      hs.plant (.inr ⟨rfl, hforward⟩) (.inr rfl)
    obtain ⟨hgrow, hsame, hmet⟩ := hplant.trials hR htrials
    split at hcalc
    · cases hcalc
    · next path hpath =>
      cases hcalc
      have hstart : s₁.start = s.start := hsame.start
      have hgoal : s₁.goal = s.goal := hsame.goal
      rw [← hstart, ← hgoal]
      exact hgrow.extractPath (by rw [hstart]; rfl) (by rw [hgoal]; rfl) (hmet rfl) hpath

/-- A call leaves the object ready for the next one. -/
theorem Idle.calcPath (hs : Idle s) (hcalc : s.calcPath planner fuel = .ok (s', b)) : Idle s' := by
  rw [RRT.calcPath] at hcalc
  split at hcalc
  · cases hcalc
  · next s₁ b' htrials =>
    have hplant : Growing (fun _ _ _ ↦ True) (fun _ ↦ none) s.plant :=
      hs.plant (.inl rfl) (.inl rfl)
    obtain ⟨⟨hturn, htrees⟩, -, -⟩ := hplant.trials (fun _ _ _ _ ↦ trivial) htrials
    split at hcalc
    · cases hcalc
    · next path hpath =>
      cases hcalc
      have hne : s₁.Tstart ≠ s₁.Tgoal := (htrees.ne false).symm
      obtain ⟨hsize, hnode, hnodes, hnil⟩ := s₁.heap.integrate_eq hne
      refine ⟨hne, hturn, ⟨?_, ?_⟩, hnil⟩
      · show ∀ n ∈ ((s₁.heap.integrate s₁.Tgoal s₁.Tstart).roadmap s₁.Tstart).nodes,
          n < (s₁.heap.integrate s₁.Tgoal s₁.Tstart).size
        rw [hnodes, hsize]
        exact fun n hn ↦ (List.mem_append.1 hn).elim ((htrees.closed false).lt n)
          ((htrees.closed true).lt n)
      · show ∀ n ∈ ((s₁.heap.integrate s₁.Tgoal s₁.Tstart).roadmap s₁.Tstart).nodes, ∀ r m,
          (s₁.heap.integrate s₁.Tgoal s₁.Tstart).link r n = some m →
            m ∈ ((s₁.heap.integrate s₁.Tgoal s₁.Tstart).roadmap s₁.Tstart).nodes
        intro n hn r m hlink
        rw [Heap.link, hnode] at hlink
        rw [hnodes] at hn ⊢
        exact (List.mem_append.1 hn).elim
          (fun hn ↦ List.mem_append_left _ ((htrees.closed false).link n hn r m hlink))
          fun hn ↦ List.mem_append_right _ ((htrees.closed true).link n hn r m hlink)

omit [Field K] [LinearOrder K] in
theorem idle_new (cfg : C) (maxTrials : ℤ) (eps : K) : Idle (RRT.new cfg maxTrials eps) :=
  ⟨Nat.zero_ne_one, .inl ⟨rfl, rfl⟩, ⟨fun _ hn ↦ absurd hn List.not_mem_nil, fun _ hn ↦
    absurd hn List.not_mem_nil⟩, rfl⟩

/-- The object is ready for a call of `calcPath` after any sequence of calls. -/
theorem Idle.call (hs : Idle s) (hcall : Call planner s s') : Idle s' := by
  cases hcall with
  | calcPath hcalc => exact hs.calcPath hcalc
  | tryDirectConnection =>
    rw [tryDirectConnection]
    split
    · exact ⟨hs.ne, hs.turn, hs.closed, hs.nodes_goal⟩
    · exact hs
  | _ => exact ⟨hs.ne, hs.turn, hs.closed, hs.nodes_goal⟩

theorem idle_of_calls {cfg : C} {maxTrials : ℤ} {eps : K}
    (hcalls : Relation.ReflTransGen (Call planner) (RRT.new cfg maxTrials eps) s) : Idle s := by
  induction hcalls with
  | refl => exact idle_new cfg maxTrials eps
  | tail _ hcall ih => exact ih.call hcall

/-! ### What the path joins -/

variable {front back : List C}

section

omit [Field K] [LinearOrder K]

/-- The ends of two chains joined at `q`. -/
theorem ends_of_joined {q a g : C} (hfront : (q :: front).getLast? = some a)
    (hback : (q :: back).getLast? = some g) :
    ((q :: front).reverse ++ back).head? = some a ∧
      ((q :: front).reverse ++ back).getLast? = some g := by
  constructor
  · rw [List.head?_append, List.head?_reverse, hfront]
    rfl
  · cases back with
    | nil => simpa using hback
    | cons b back =>
      rw [List.getLast?_append, ← List.getLast?_cons_cons (a := q), hback]
      rfl

/-- The consecutive pairs of two chains joined at `q`, the first one reversed. -/
theorem isChain_of_joined {E : C → C → Prop} {q : C} (hfront : (q :: front).IsChain fun a b ↦ E b a)
    (hback : (q :: back).IsChain E) : ((q :: front).reverse ++ back).IsChain E := by
  refine List.isChain_append.2 ⟨List.isChain_reverse.2 hfront, hback.tail, fun x hx y hy ↦ ?_⟩
  rw [List.getLast?_reverse] at hx
  cases hx
  cases back with
  | nil => cases hy
  | cons b back =>
    cases hy
    exact (List.isChain_cons_cons.1 hback).1

theorem dropLast_of_isChain {V : C → Prop} {l : List C} (h : l.IsChain fun a _ ↦ V a) :
    ∀ x ∈ l.dropLast, V x := by
  induction l with
  | nil => exact fun x hx ↦ absurd hx List.not_mem_nil
  | cons a l ih =>
    cases l with
    | nil => exact fun x hx ↦ absurd hx List.not_mem_nil
    | cons b l =>
      obtain ⟨ha, hrest⟩ := List.isChain_cons_cons.1 h
      intro x hx
      rw [List.dropLast_cons_cons] at hx
      rcases List.mem_cons.1 hx with rfl | hx
      · exact ha
      · exact ih hrest x hx

/-- The inner elements of two chains joined at `q`. -/
theorem interior_of_joined {V : C → Prop} {q : C} (hfront : (q :: front).IsChain fun a _ ↦ V a)
    (hback : (q :: back).IsChain fun a _ ↦ V a) :
    ∀ x ∈ ((q :: front).reverse ++ back).tail.dropLast, V x := by
  intro x hx
  rw [List.tail_append_of_ne_nil (by simp), List.tail_reverse] at hx
  cases back with
  | nil =>
    rw [List.append_nil] at hx
    exact dropLast_of_isChain hfront x (List.mem_reverse.1 (List.dropLast_subset _ hx))
  | cons b back =>
    rw [List.dropLast_append_of_ne_nil (List.cons_ne_nil b back)] at hx
    rcases List.mem_append.1 hx with hx | hx
    · exact dropLast_of_isChain hfront x (List.mem_reverse.1 hx)
    · exact dropLast_of_isChain hback x (List.mem_cons_of_mem _ hx)

end

/-- **Success is sound.** On a fresh object, whatever its start, goal, properties and options, the
path of a call of `calcPath` that returns true leads from the start to the goal, each of its moves
is possible and each configuration strictly between its ends was found collision-free. -/
theorem isSound_calcPath {cfg : C} {maxTrials : ℤ} {eps : K} {start goal : C}
    {extendFromStart extendFromGoal : Bool} {f : Option (C → Bool)}
    (hcalc : ({ RRT.new cfg maxTrials eps with
      start := start, goal := goal, extendFromStart := extendFromStart,
      extendFromGoal := extendFromGoal,
      extraConnectionCheckFunc := f } : RRT C K).calcPath planner fuel = .ok (s', true)) :
    s'.path ≠ [] ∧ s'.path.head? = some start ∧ s'.path.getLast? = some goal ∧
      s'.path.IsChain (fun a b ↦ planner.mobility.isReachable a b = true) ∧
      ∀ q ∈ s'.path.tail.dropLast, planner.checkCollision q = false := by
  have hnew := idle_new cfg maxTrials eps
  have hidle : Idle ({ RRT.new cfg maxTrials eps with
      start := start, goal := goal, extendFromStart := extendFromStart,
      extendFromGoal := extendFromGoal, extraConnectionCheckFunc := f } : RRT C K) :=
    ⟨hnew.ne, hnew.turn, hnew.closed, hnew.nodes_goal⟩
  obtain ⟨q, front, back, hpath, hfront, hfirst, hback, hlast⟩ :=
    hidle.path_calcPath (R := Linked planner) (fun _ _ _ h ↦ h)
      (fun _ hn ↦ absurd hn List.not_mem_nil) hcalc
  rw [hpath]
  have hends := ends_of_joined hfirst hlast
  refine ⟨by simp, hends.1, hends.2, isChain_of_joined (hfront.imp fun a b h ↦ h.1)
    (hback.imp fun a b h ↦ h.1), interior_of_joined (hfront.imp fun a b h ↦ h.2)
      (hback.imp fun a b h ↦ h.2)⟩

end Calls

/-- A robot on a line that moves at most 6 at a time, sent to 5 in the first trial and to 11 in
later ones. -/
def line : PathPlanner ℚ ℚ where
  mobility :=
    { distance := fun a b ↦ |b - a|
      interpolate := fun a b r ↦ a + r * (b - a)
      isReachable := fun a b ↦ |b - a| ≤ 6 }
  checkCollision := fun _ ↦ false
  isValid := fun _ ↦ true
  random := fun n ↦ if n = 0 then 5 else 11

/-- The call that plans from 0 to 10. -/
def firstCall : Except Stop (RRT ℚ ℚ × Bool) :=
  ({ RRT.new 0 10 100 with
    start := 0, goal := 10, extendFromStart := true, extendFromGoal := false,
    extraConnectionCheckFunc := none } : RRT ℚ ℚ).calcPath line 10

/-- What a call returns, with the path it leaves; none when it does not return. -/
def outcome (call : Except Stop (RRT ℚ ℚ × Bool)) : Option (List ℚ × Bool) :=
  match call with
  | .ok (s, b) => some (s.path, b)
  | .error _ => none

theorem exists_of_outcome {call : Except Stop (RRT ℚ ℚ × Bool)} {path : List ℚ} {b : Bool}
    (h : outcome call = some (path, b)) : ∃ s, call = .ok (s, b) ∧ s.path = path := by
  rcases call with _ | ⟨s, b'⟩
  · cases h
  · cases h
    exact ⟨s, rfl, rfl⟩

theorem isSound_calcPath_line : ∃ s', firstCall = .ok (s', true) ∧
    s'.path ≠ [] ∧ s'.path.head? = some 0 ∧ s'.path.getLast? = some 10 ∧
      s'.path.IsChain (fun a b ↦ line.mobility.isReachable a b = true) ∧
      ∀ q ∈ s'.path.tail.dropLast, line.checkCollision q = false := by
  obtain ⟨s', hcall, -⟩ := exists_of_outcome
    (by decide +kernel : outcome firstCall = some ([0, 5, 10], true))
  exact ⟨s', hcall, isSound_calcPath hcall⟩

section Calls

variable [Field K] [LinearOrder K] {planner : PathPlanner C K} {s s' : RRT C K} {fuel : ℕ}

/-- The nodes that the forward tree has lead to the start. -/
def Rooted (s : RRT C K) : Prop :=
  ∀ n ∈ (s.heap.roadmap s.Tstart).nodes, s.heap.LeadsTo false (fun _ _ ↦ True) s.start n

/-- **Replanning.** In a run of any calls on one object, a call of `calcPath` that returns true
leaves a path from the start to the goal set for that call, when the nodes that the forward tree
already has lead to this start. -/
theorem ends_calcPath {cfg : C} {maxTrials : ℤ} {eps : K}
    (hcalls : Relation.ReflTransGen (Call planner) (RRT.new cfg maxTrials eps) s)
    (hrooted : Rooted s) (hcalc : s.calcPath planner fuel = .ok (s', true)) :
    s'.path.head? = some s.start ∧ s'.path.getLast? = some s.goal := by
  obtain ⟨q, front, back, hpath, -, hfirst, -, hlast⟩ :=
    (idle_of_calls hcalls).path_calcPath (R := fun _ _ _ ↦ True) (fun _ _ _ _ ↦ trivial) hrooted
      hcalc
  rw [hpath]
  exact ends_of_joined hfirst hlast

end Calls

theorem ends_calcPath_line : ∃ s', firstCall = .ok (s', true) ∧
    s'.path.head? = some 0 ∧ s'.path.getLast? = some 10 := by
  obtain ⟨s', hcall, -⟩ := exists_of_outcome
    (by decide +kernel : outcome firstCall = some ([0, 5, 10], true))
  exact ⟨s', hcall, ends_calcPath (.single (.setGoalConfiguration (RRT.new 0 10 100) 10))
    (fun n hn ↦ absurd hn List.not_mem_nil) hcall⟩

/-- Sent on from 50 to 12 by the same object, the robot on the line gets a path that begins at 0:
the new trial starts from the old goal, which is still in the forward tree. -/
theorem not_ends_calcPath_line : ¬ ∀ (s s' : RRT ℚ ℚ) (fuel : ℕ),
    Relation.ReflTransGen (Call line) (RRT.new 0 10 100) s →
      s.calcPath line fuel = .ok (s', true) →
      s'.path.head? = some s.start ∧ s'.path.getLast? = some s.goal := by
  intro h
  obtain ⟨s₁, hcall₁, -⟩ := exists_of_outcome
    (by decide +kernel : outcome firstCall = some ([0, 5, 10], true))
  have hsecond : outcome (firstCall.toOption.elim firstCall fun r ↦
      ({ r.1 with start := 50, goal := 12 } : RRT ℚ ℚ).calcPath line 10) =
        some ([0, 5, 10, 11, 12], true) := by
    decide +kernel
  rw [hcall₁] at hsecond
  obtain ⟨s₂, hcall₂, hpath⟩ := exists_of_outcome hsecond
  have hrun : Relation.ReflTransGen (Call line) (RRT.new 0 10 100)
      { s₁ with start := 50, goal := 12 } :=
    (((Relation.ReflTransGen.single (.setGoalConfiguration _ 10)).tail
      (.calcPath hcall₁)).tail (.setStartConfiguration _ 50)).tail (.setGoalConfiguration _ 12)
  have hends := (h _ s₂ 10 hrun hcall₂).1
  rw [hpath] at hends
  exact absurd (Option.some.inj hends : (0 : ℚ) = 50) (by decide +kernel)

end RRT

end OpenHRP.PathEngine
