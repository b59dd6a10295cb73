import OpenHRP.Planner.RRTSoundness

/-!
# An RRT run that fails

`calcPath` reads a path back whether its trials have succeeded or not. The chains of links that it
follows end, from every node of every state of the object (`Heap.Ending`), so with an empty hand it
would do no harm; but when both trees grow, the path goes on at the first child of the last node of
the backward tree. The goal, which is this node for as long as that tree has not grown, has no
child.

`GrowsBackward` says of a trial that it grows the backward tree, and `failed_calcPath_iff` that a
call whose trials are exhausted returns exactly when one of them does.
-/

namespace OpenHRP.PathEngine

variable {C K : Type*}

namespace Heap

/-- All nodes are allocated, and their chains of links end. -/
structure Ending (h : Heap C) : Prop where
  lt : ∀ r, ∀ n ∈ (h.roadmap r).nodes, n < h.size
  link_lt : ∀ b n m, n < h.size → h.link b n = some m → m < h.size
  ends : ∀ b n, n < h.size → Leads (h.link b) (fun _ _ ↦ True) (fun _ ↦ True) n

variable {h : Heap C} {r : RoadmapPtr} {n minNode : NodePtr} {q : C} {reverse : Bool}

theorem link_newNode (b : Bool) (n : NodePtr) :
    (h.newNode q).1.link b n = if n = h.size then none else h.link b n := by
  rcases eq_or_ne n h.size with rfl | hn
  · cases b <;> simp [link, newNode, RoadmapNode.parent, RoadmapNode.child]
  · cases b <;> simp [link, newNode, hn]

theorem Ending.newNode (hh : h.Ending) (q : C) : (h.newNode q).1.Ending where
  lt r n hn := (hh.lt r n hn).trans (Nat.lt_succ_self _)
  link_lt b n m hn hlink := by
    rw [link_newNode] at hlink
    split at hlink
    · cases hlink
    · next hne =>
      exact (hh.link_lt b n m (lt_of_le_of_ne (Nat.lt_succ_iff.1 hn) hne) hlink).trans
        (Nat.lt_succ_self _)
  ends b n hn := by
    rcases eq_or_ne n h.size with rfl | hne
    · exact .root (by rw [link_newNode, if_pos rfl]) trivial
    · have hlt : n < h.size := lt_of_le_of_ne (Nat.lt_succ_iff.1 hn) hne
      refine (hh.ends b n hlt).congr (S := (· < h.size)) hlt (hh.link_lt b) (fun a ha ↦ ?_)
        (fun _ _ _ _ _ ↦ trivial) fun _ _ _ ↦ trivial
      rw [link_newNode, if_neg ha.ne]

theorem Ending.of_node {h' : Heap C} (hh : h.Ending) (hsize : h'.size = h.size)
    (hnode : h'.node = h.node) (hlt : ∀ r, ∀ n ∈ (h'.roadmap r).nodes, n < h.size) :
    h'.Ending := by
  have hlink : h'.link = h.link := by
    funext b n
    rw [link, link, hnode]
  exact ⟨hsize ▸ hlt, by rw [hsize, hlink]; exact hh.link_lt, by rw [hsize, hlink]; exact hh.ends⟩

theorem Ending.addNode (hh : h.Ending) (r : RoadmapPtr) (hn : n < h.size) :
    (h.addNode r n).Ending := by
  refine hh.of_node rfl rfl fun r' m hm ↦ ?_
  rcases eq_or_ne r' r with rfl | hr
  · simp only [Heap.addNode, Function.update_self, List.mem_append, List.mem_singleton] at hm
    rcases hm with hm | rfl
    · exact hh.lt r' m hm
    · exact hn
  · simp only [Heap.addNode, Function.update_of_ne hr] at hm
    exact hh.lt r' m hm

theorem Ending.integrate (hh : h.Ending) {rdmp : RoadmapPtr} (hne : rdmp ≠ r) :
    (h.integrate r rdmp).Ending := by
  obtain ⟨hsize, hnode, hnodes, hnil⟩ := h.integrate_eq hne
  refine hh.of_node hsize hnode fun r' n hn ↦ ?_
  rcases eq_or_ne r' rdmp with rfl | hrdmp
  · rw [hnodes] at hn
    exact (List.mem_append.1 hn).elim (hh.lt _ n) (hh.lt _ n)
  · rcases eq_or_ne r' r with rfl | hr
    · rw [hnil] at hn
      cases hn
    · rw [Heap.integrate, foldl_addNode] at hn
      simp only [ne_eq, hr, not_false_eq_true, Function.update_of_ne, hrdmp] at hn
      exact hh.lt r' n hn

/-- The link of a node after a new one is joined to `minNode`: only an end gets one, to the new
node. -/
theorem link_grow_or (hmin : minNode ≠ h.size) {b : Bool} (hn : n ≠ h.size) :
    (h.grow r minNode q reverse).link b n = h.link b n ∨
      h.link b n = none ∧ ∃ m, (h.grow r minNode q reverse).link b n = some m ∧
        (h.grow r minNode q reverse).link b m = none := by
  rcases eq_or_ne b reverse with rfl | hb
  · exact .inl (h.link_grow_of_ne hmin hn)
  · rcases eq_or_ne n minNode with rfl | hne
    · have hnone : (h.grow r n q reverse).link b h.size = none := by
        rw [link, h.node_grow hmin, if_pos rfl]
        cases b <;> cases reverse <;> simp_all [RoadmapNode.parent, RoadmapNode.child]
      have hconcat : ∀ l : List NodePtr, (l ++ [h.size])[0]? = l[0]?.or (some h.size) := by
        rintro (_ | _) <;> rfl
      have hgrow : (h.grow r n q reverse).link b n = (h.link b n).or (some h.size) := by
        rw [link, h.node_grow hmin, if_neg hn, if_pos rfl, link]
        cases b <;> cases reverse <;> simp_all [RoadmapNode.parent, RoadmapNode.child,
          RoadmapNode.addParent, RoadmapNode.addChild]
      rw [hgrow]
      rcases hlink : h.link b n with _ | m
      · exact .inr ⟨rfl, h.size, rfl, hnone⟩
      · exact .inl rfl
    · exact .inl (h.link_grow_other hmin hn hne b)

theorem Ending.grow (hh : h.Ending) (hmin : minNode ∈ (h.roadmap r).nodes) (q : C)
    (reverse : Bool) : (h.grow r minNode q reverse).Ending := by
  have hminlt : minNode < h.size := hh.lt r _ hmin
  have hne : minNode ≠ h.size := hminlt.ne
  have hends : ∀ b n, n < h.size →
      Leads ((h.grow r minNode q reverse).link b) (fun _ _ ↦ True) (fun _ ↦ True) n :=
    fun b n hn ↦ (hh.ends b n hn).hang (S := (· < h.size)) hn (hh.link_lt b)
      fun a ha ↦ link_grow_or hne ha.ne
  constructor
  · intro r' n hn
    rw [size_grow]
    rcases eq_or_ne r' r with rfl | hr
    · rw [nodes_grow_self] at hn
      rcases List.mem_append.1 hn with hn | hn
      · exact (hh.lt _ n hn).trans (Nat.lt_succ_self _)
      · exact (List.mem_singleton.1 hn) ▸ Nat.lt_succ_self _
    · rw [h.nodes_grow_of_ne hr] at hn
      exact (hh.lt _ n hn).trans (Nat.lt_succ_self _)
  · intro b n m hn hlink
    rw [size_grow]
    rcases h.link_grow_cases hne hlink with ⟨-, rfl⟩ | ⟨-, rfl⟩ | ⟨hns, hold⟩
    · exact hminlt.trans (Nat.lt_succ_self _)
    · exact Nat.lt_succ_self _
    · rw [size_grow] at hn
      exact (hh.link_lt b n m (lt_of_le_of_ne (Nat.lt_succ_iff.1 hn) hns) hold).trans
        (Nat.lt_succ_self _)
  · intro b n hn
    rw [size_grow] at hn
    rcases (Nat.lt_succ_iff.1 hn).eq_or_lt with rfl | hlt
    · rcases hlink : (h.grow r minNode q reverse).link b h.size with _ | m
      · exact .root hlink trivial
      · rcases h.link_grow_cases hne hlink with ⟨-, rfl⟩ | ⟨heq, -⟩ | ⟨hns, -⟩
        · exact .link hlink trivial (hends b _ hminlt)
        · exact absurd heq.symm hne
        · exact absurd rfl hns
    · exact hends b n hlt

end Heap

namespace RRT

section Calls

variable [Field K] [LinearOrder K] {planner : PathPlanner C K} {s s' : RRT C K} {q q' : C}
  {tree : RoadmapPtr} {reverse b : Bool} {fuel fuel' times : ℕ} {r : ExtendResult}

/-! ### What the calls keep -/

theorem ending_extend (hs : s.heap.Ending)
    (hext : s.extend planner tree q reverse = (s', q', r)) : s'.heap.Ending := by
  rcases extend_cases hext with ⟨-, rfl⟩ | ⟨-, -, minNode, hmin, -, rfl⟩
  · exact hs
  · exact hs.grow hmin _ _

theorem ending_connect (hs : s.heap.Ending)
    (hcon : s.connect planner fuel tree q reverse = .ok (s', r)) : s'.heap.Ending := by
  induction fuel generalizing s with
  | zero => cases hcon
  | succ fuel ih =>
    rw [connect] at hcon
    split at hcon
    · next hext => exact ih (ending_extend hs hext) hcon
    · next hext =>
      cases hcon
      exact ending_extend hs hext

theorem ending_extendTowards (hs : s.heap.Ending)
    (hone : s.extendTowards planner fuel q = .ok (s', b)) : s'.heap.Ending := by
  rw [extendTowards] at hone
  split at hone
  · split at hone
    · next hext =>
      have h₁ := ending_extend hs hext
      cases hone
      exact h₁
    · next hext =>
      have h₁ := ending_extend hs hext
      split at hone
      · cases hone
      · next hcon =>
        have h₂ := ending_connect h₁ hcon
        split at hone
        · split at hone
          · cases hone
          · cases hone
            exact h₂
        · cases hone
          exact h₂
      · next hcon =>
        have h₂ := ending_connect h₁ hcon
        cases hone
        exact h₂
  · split at hone
    · split at hone
      · next hext =>
        cases hone
        exact ending_extend hs hext
      · next hext =>
        have h₁ := ending_extend hs hext
        split at hone
        · cases hone
        · next hcon =>
          cases hone
          exact ending_connect h₁ hcon
    · cases hone
      exact hs

theorem ending_trials (hs : s.heap.Ending)
    (htrials : s.trials planner fuel times = .ok (s', b)) : s'.heap.Ending := by
  induction times generalizing s with
  | zero =>
    cases htrials
    exact hs
  | succ times ih =>
    rw [trials, extendOneStep] at htrials
    split at htrials
    · cases htrials
    · next hone =>
      cases htrials
      exact ending_extendTowards (s := { s with draws := s.draws + 1 }) hs hone
    · next hone =>
      exact ih (ending_extendTowards (s := { s with draws := s.draws + 1 }) hs hone) htrials

omit [Field K] [LinearOrder K] in
theorem ending_plant (hs : s.heap.Ending) : s.plant.heap.Ending :=
  (((hs.newNode s.start).newNode s.goal).addNode s.Tstart
    (Nat.lt_succ_of_lt (Nat.lt_succ_self _))).addNode s.Tgoal (Nat.lt_succ_self _)

/-- After any sequence of calls, the chains of links end from every node. -/
theorem ending_of_calls {cfg : C} {maxTrials : ℤ} {eps : K}
    (hcalls : Relation.ReflTransGen (Call planner) (RRT.new cfg maxTrials eps) s) :
    s.heap.Ending := by
  induction hcalls with
  | refl => exact ⟨nofun, nofun, nofun⟩
  | @tail s s' hbefore hcall ih =>
    cases hcall with
    | calcPath hcalc =>
      rw [RRT.calcPath] at hcalc
      split at hcalc
      · cases hcalc
      · next s₁ b htrials =>
        have hending := ending_trials (ending_plant ih) htrials
        have hplant : Growing (fun _ _ _ ↦ True) (fun _ ↦ none) s.plant :=
          (idle_of_calls hbefore).plant (.inl rfl) (.inl rfl)
        have hgrow := (hplant.trials (fun _ _ _ _ ↦ trivial) htrials).1
        split at hcalc
        · cases hcalc
        · cases hcalc
          exact hending.integrate (hgrow.trees.ne false).symm
    | tryDirectConnection =>
      rw [tryDirectConnection]
      split <;> exact ih
    | _ => exact ih

/-! ### The backward tree -/

/-- The backward tree has grown: its last node has a child. -/
def Grown (s : RRT C K) : Prop :=
  ∃ q, s.heap.Tip (s.tree true) true q

/-- The backward tree is the goal alone, without a child. -/
def Bare (s : RRT C K) : Prop :=
  ∃ n, (s.heap.roadmap (s.tree true)).nodes = [n] ∧ s.heap.link true n = none

/-- The invariant of a call, without the links and the roots. -/
abbrev Runs (s : RRT C K) : Prop :=
  Growing (fun _ _ _ ↦ True) (fun _ ↦ none) s

theorem Runs.extend (hs : Runs s) (reverse : Bool)
    (hext : s.extend planner (s.tree reverse) q reverse = (s', q', r)) :
    (∃ t h, s' = s.extended t h) ∧ Runs s' ∧
      (Grown s ∨ reverse = true ∧ r ≠ .trapped → Grown s') ∧
      (Bare s → ¬ (reverse = true ∧ r ≠ .trapped) → Bare s') := by
  obtain ⟨⟨hrest, hgrow, hkeep⟩, htip, -⟩ := Growing.extend hs reverse (fun _ _ _ _ ↦ trivial) hext
  obtain ⟨t, h, rfl⟩ := hrest
  refine ⟨⟨t, h, rfl⟩, hgrow, ?_, ?_⟩
  · rintro (⟨q₀, hq₀⟩ | ⟨rfl, hr⟩)
    · cases reverse with
      | false => exact ⟨q₀, hkeep q₀ hq₀⟩
      | true =>
        rcases eq_or_ne r .trapped with rfl | hr
        · rcases extend_cases hext with ⟨-, heq⟩ | ⟨hne, -⟩
          · rw [heq]
            exact ⟨q₀, hq₀⟩
          · exact absurd rfl hne
        · exact ⟨q', htip hr⟩
    · exact ⟨q', htip hr⟩
  · rintro ⟨n, hnodes, hlink⟩ hnot
    rcases extend_cases hext with ⟨-, heq⟩ | ⟨hr, -, minNode, hmin, -, heq⟩
    · rw [heq]
      exact ⟨n, hnodes, hlink⟩
    · cases reverse with
      | true => exact absurd ⟨rfl, hr⟩ hnot
      | false =>
        have hn : n ∈ (s.heap.roadmap (s.tree true)).nodes :=
          hnodes ▸ List.mem_singleton_self n
        have hne : minNode ≠ s.heap.size := (hs.trees.closed false).ne_size hmin
        have hother : s.tree true ≠ s.tree false := hs.trees.ne false
        obtain ⟨heap, hheap⟩ : ∃ heap, heap = s.heap.grow (s.tree false) minNode q' false :=
          ⟨_, rfl⟩
        have hnodes' : (heap.roadmap (s.tree true)).nodes = [n] := by
          rw [hheap, s.heap.nodes_grow_of_ne hother, hnodes]
        have hlink' : heap.link true n = none := by
          rw [hheap, s.heap.link_grow_other hne ((hs.trees.closed true).ne_size hn)
            (ne_of_mem_of_not_mem hn (hs.trees.disjoint false _ hmin)), hlink]
        rw [heq, ← hheap]
        exact ⟨n, hnodes', hlink'⟩

theorem Runs.connect (hs : Runs s) (reverse : Bool)
    (hcon : s.connect planner fuel (s.tree reverse) q reverse = .ok (s', r)) :
    (∃ t h, s' = s.extended t h) ∧ Runs s' ∧
      (Grown s ∨ reverse = true ∧ (s.extend planner (s.tree reverse) q reverse).2.2 ≠ .trapped →
        Grown s') ∧
      (Bare s → ¬ (reverse = true ∧
        (s.extend planner (s.tree reverse) q reverse).2.2 ≠ .trapped) → Bare s') := by
  induction fuel generalizing s with
  | zero => cases hcon
  | succ fuel ih =>
    rw [RRT.connect] at hcon
    rcases hext : s.extend planner (s.tree reverse) q reverse with ⟨s₁, q₁, r₁⟩
    obtain ⟨⟨t, h, rfl⟩, hruns, hgrown, hbare⟩ := hs.extend reverse hext
    rw [hext] at hcon
    have hdone : .ok (s.extended t h, r₁) = (.ok (s', r) : Except Stop _) →
        (∃ t h, s' = s.extended t h) ∧ Runs s' ∧
          (Grown s ∨ reverse = true ∧ r₁ ≠ .trapped → Grown s') ∧
          (Bare s → ¬ (reverse = true ∧ r₁ ≠ .trapped) → Bare s') := fun heq ↦ by
      cases heq
      exact ⟨⟨t, h, rfl⟩, hruns, hgrown, hbare⟩
    cases r₁ with
    | advanced =>
      obtain ⟨⟨t', h', rfl⟩, hruns', hgrown', hbare'⟩ := ih hruns hcon
      refine ⟨⟨t', h', rfl⟩, hruns', fun hc ↦ hgrown' (.inl (hgrown hc)), fun hb hnot ↦ ?_⟩
      -- an advance is no growth of the backward tree only when it is one of the forward tree
      have hforward : reverse ≠ true := fun hrev ↦ hnot ⟨hrev, fun hc ↦ by cases hc⟩
      exact hbare' (hbare hb hnot) fun hc ↦ hforward hc.1
    | trapped => exact hdone hcon
    | reached => exact hdone hcon

/-- In a trial that draws `qNew`, the backward tree is extended and not trapped: as the first tree
of the trial, or as the second one after the first has been extended. -/
def GrowsBackward (planner : PathPlanner C K) (s : RRT C K) (qNew : C) : Prop :=
  let first := s.extend planner s.Ta qNew (s.Tb == s.Tstart)
  first.2.2 ≠ .trapped ∧
    (s.Ta = s.Tgoal ∨
      (first.1.extend planner s.Tb first.2.1 (s.Ta == s.Tstart)).2.2 ≠ .trapped)

/-- In one of the trials, the backward tree is extended and not trapped. -/
def ExtendsBackward (planner : PathPlanner C K) (fuel : ℕ) : ℕ → RRT C K → Prop
  | 0, _ => False
  | times + 1, s =>
    GrowsBackward planner { s with draws := s.draws + 1 } (planner.random s.draws) ∨
      ∃ s', s.extendOneStep planner fuel = .ok (s', false) ∧ ExtendsBackward planner fuel times s'

/-- Both trees grow. -/
def Both (s : RRT C K) : Prop :=
  s.extendFromStart = true ∧ s.extendFromGoal = true

theorem Runs.extendTowards (hs : Runs s) (hboth : Both s)
    (hone : s.extendTowards planner fuel q = .ok (s', b)) :
    Runs s' ∧ Both s' ∧ (Grown s ∨ GrowsBackward planner s q → Grown s') ∧
      (Bare s → ¬ GrowsBackward planner s q → Bare s') := by
  rw [RRT.extendTowards, if_pos (Bool.and_eq_true_iff.2 hboth)] at hone
  obtain ⟨b', hTa, hTb, hrevA, hrevB⟩ := hs.exists_turn
  have hgoal : s.Ta = s.Tgoal ↔ b' = true := by
    rw [hTa]
    cases b' with
    | false => exact iff_of_false (hs.trees.ne false).symm (by decide)
    | true => exact iff_of_true rfl rfl
  rw [hrevA, hTa] at hone
  split at hone
  · next s₁ q₁ hext =>
    cases hone
    obtain ⟨⟨t, h, rfl⟩, hruns, hgrown, hbare⟩ := hs.extend b' hext
    have hnot : ¬ GrowsBackward planner s q := by
      rw [GrowsBackward, hrevA, hTa, hext]
      exact fun hgrows ↦ hgrows.1 rfl
    exact ⟨hruns.swapTrees, hboth, fun hc ↦ hgrown (hc.imp_right fun hgrows ↦ absurd hgrows hnot),
      fun hb _ ↦ hbare hb fun hc ↦ hc.2 rfl⟩
  · next s₁ q₁ r₁ hne hext =>
    obtain ⟨⟨t, h, rfl⟩, hruns, hgrown, hbare⟩ := hs.extend b' hext
    have hne : r₁ ≠ .trapped := hne
    have hgrows : GrowsBackward planner s q ↔ b' = true ∨
        ((s.extended t h).extend planner (s.tree !b') q₁ (!b')).2.2 ≠ .trapped := by
      rw [GrowsBackward, hrevA, hrevB, hgoal, hTa, hTb, hext]
      exact and_iff_right hne
    rw [show ((s.extended t h).Ta == (s.extended t h).Tstart) = !b' from hrevB,
      show (s.extended t h).Tb = (s.extended t h).tree !b' from hTb] at hone
    have hconnect : ∀ s₂ r₂, (s.extended t h).connect planner fuel ((s.extended t h).tree !b') q₁
          (!b') = .ok (s₂, r₂) →
        Runs s₂ ∧ Both s₂ ∧ (Grown s ∨ GrowsBackward planner s q → Grown s₂) ∧
          (Bare s → ¬ GrowsBackward planner s q → Bare s₂) := by
      intro s₂ r₂ hcon
      obtain ⟨⟨t', h', rfl⟩, hruns', hgrown', hbare'⟩ := hruns.connect (!b') hcon
      refine ⟨hruns', hboth, fun hc ↦ ?_, fun hb hnot ↦ ?_⟩
      · rcases hc with hc | hc
        · exact hgrown' (.inl (hgrown (.inl hc)))
        · cases b' with
          | true => exact hgrown' (.inl (hgrown (.inr ⟨rfl, hne⟩)))
          | false => exact hgrown' (.inr ⟨rfl, (hgrows.1 hc).resolve_left (by decide)⟩)
      · exact hbare' (hbare hb fun hc ↦ hnot (hgrows.2 (.inl hc.1))) fun hc ↦
          hnot (hgrows.2 (.inr hc.2))
    split at hone
    · cases hone
    · next s₂ hcon =>
      have hafter := hconnect s₂ _ hcon
      split at hone
      · split at hone
        · cases hone
        · cases hone
          exact hafter
      · cases hone
        exact hafter
    · next s₂ r₂ hnot hcon =>
      obtain ⟨hruns', hboth', hrest⟩ := hconnect s₂ r₂ hcon
      cases hone
      exact ⟨hruns'.swapTrees, hboth', hrest⟩

/-- Over a run of the trials, the backward tree has grown if one of them grows it, and is the goal
alone if none does. -/
theorem Runs.trials (hs : Runs s) (hboth : Both s)
    (htrials : s.trials planner fuel times = .ok (s', false)) :
    Runs s' ∧ Both s' ∧ (Grown s ∨ ExtendsBackward planner fuel times s → Grown s') ∧
      (Bare s → ¬ ExtendsBackward planner fuel times s → Bare s') := by
  induction times generalizing s with
  | zero =>
    cases htrials
    exact ⟨hs, hboth, fun hc ↦ hc.resolve_right id, fun hb _ ↦ hb⟩
  | succ times ih =>
    rw [RRT.trials] at htrials
    split at htrials
    · cases htrials
    · cases htrials
    · next s₁ hone =>
      have hs₀ : Runs { s with draws := s.draws + 1 } := ⟨hs.turn, hs.trees⟩
      obtain ⟨hruns, hboth₁, hgrown, hbare⟩ := hs₀.extendTowards hboth hone
      obtain ⟨hruns', hboth', hgrown', hbare'⟩ := ih hruns hboth₁ htrials
      refine ⟨hruns', hboth', fun hc ↦ hgrown' ?_, fun hb hnot ↦ hbare' ?_ ?_⟩
      · rcases hc with hc | hc | ⟨s₁', hone', hc⟩
        · exact .inl (hgrown (.inl hc))
        · exact .inl (hgrown (.inr hc))
        · rw [hone] at hone'
          cases hone'
          exact .inr hc
      · exact hbare hb fun hc ↦ hnot (.inl hc)
      · exact fun hc ↦ hnot (.inr ⟨s₁, hone, hc⟩)

/-! ### More fuel -/

theorem connect_mono {x : RRT C K × ExtendResult} (hle : fuel ≤ fuel')
    (hcon : s.connect planner fuel tree q reverse = .ok x) :
    s.connect planner fuel' tree q reverse = .ok x := by
  induction fuel generalizing s fuel' with
  | zero => cases hcon
  | succ fuel ih =>
    obtain ⟨fuel', rfl⟩ := Nat.exists_eq_add_of_le' (Nat.le_of_add_left_le hle)
    rw [connect] at hcon ⊢
    rcases hext : s.extend planner tree q reverse with ⟨s₁, q₁, _ | _ | _⟩
    · rw [hext] at hcon
      exact ih (Nat.le_of_succ_le_succ hle) hcon
    · rwa [hext] at hcon
    · rwa [hext] at hcon

theorem extendTowards_mono {x : RRT C K × Bool} (hle : fuel ≤ fuel')
    (hone : s.extendTowards planner fuel q = .ok x) :
    s.extendTowards planner fuel' q = .ok x := by
  rw [extendTowards] at hone ⊢
  split
  · next hboth =>
    rw [if_pos hboth] at hone
    split
    · next hext => rwa [hext] at hone
    · next s₁ q₁ r₁ hne hext =>
      rw [hext] at hone
      rcases hcon : s₁.connect planner fuel s₁.Tb q₁ (s₁.Ta == s₁.Tstart) with e | y
      · cases r₁ with
        | trapped => exact absurd rfl hne
        | _ => simp only [hcon, reduceCtorEq] at hone
      · rw [connect_mono hle hcon]
        cases r₁ with
        | trapped => exact absurd rfl hne
        | _ => simpa only [hcon] using hone
  · next hboth =>
    rw [if_neg hboth] at hone
    split
    · next hstart =>
      rw [if_pos hstart] at hone
      split
      · next hext => rwa [hext] at hone
      · next s₁ q₁ r₁ hne hext =>
        rw [hext] at hone
        rcases hcon : s₁.connect planner fuel s₁.Tstart s₁.goal false with e | y
        · cases r₁ with
          | trapped => exact absurd rfl hne
          | _ => simp only [hcon, reduceCtorEq] at hone
        · rw [connect_mono hle hcon]
          cases r₁ with
          | trapped => exact absurd rfl hne
          | _ => simpa only [hcon] using hone
    · next hstart => rwa [if_neg hstart] at hone

theorem trials_mono {x : RRT C K × Bool} (hle : fuel ≤ fuel')
    (htrials : s.trials planner fuel times = .ok x) : s.trials planner fuel' times = .ok x := by
  induction times generalizing s with
  | zero => exact htrials
  | succ times ih =>
    rw [trials, extendOneStep] at htrials ⊢
    split at htrials
    · cases htrials
    · next hone => rwa [extendTowards_mono hle hone]
    · next hone =>
      rw [extendTowards_mono hle hone]
      exact ih htrials

/-! ### The path of a run that fails -/

section

omit [Field K] [LinearOrder K]

/-- Reading back from a node that exists ends. -/
theorem exists_readBack {h : Heap C} (hh : h.Ending) (reverse : Bool) {n : NodePtr}
    (hn : n < h.size) : ∃ path N, ∀ fuel, N ≤ fuel → readBack fuel h reverse n = .ok path := by
  obtain ⟨nodes, N, hwalk⟩ := (hh.ends reverse n hn).exists_walk
  refine ⟨nodes.map h.position, N, fun fuel hfuel ↦ ?_⟩
  rw [readBack, hwalk fuel hfuel]

/-- With a grown backward tree, a path is read back. -/
theorem Runs.extractPath_of_grown (hs : Runs s) (hboth : Both s) (hh : s.heap.Ending)
    (hgrown : Grown s) : ∃ path N, ∀ fuel, N ≤ fuel → s.extractPath fuel = .ok path := by
  obtain ⟨q, g, hg, -, m, hm⟩ := hgrown
  have hstart : (s.heap.roadmap s.Tstart).nodes ≠ [] := hs.trees.ne_nil false
  have hmid : s.heap.lastAddedNode s.Tstart =
      some ((s.heap.roadmap s.Tstart).nodes.getLast hstart) :=
    List.getLast?_eq_some_getLast hstart
  have hglt : g < s.heap.size := hh.lt _ g (List.mem_of_getLast? hg)
  obtain ⟨front, N, hfront⟩ := exists_readBack hh false
    (hh.lt s.Tstart _ (List.getLast_mem hstart))
  obtain ⟨back, N', hback⟩ := exists_readBack hh true (hh.link_lt true g m hglt hm)
  have hchild : (s.heap.node g).child 0 = some m := hm
  refine ⟨front.reverse ++ back, max N N', fun fuel hfuel ↦ ?_⟩
  rw [extractPath, hmid, show s.heap.lastAddedNode s.Tgoal = some g from hg]
  dsimp only
  rw [readForward, if_pos hboth.1, hfront fuel (by omega)]
  dsimp only
  rw [readBackward, if_pos hboth.2, if_pos hboth.1, hchild]
  dsimp only
  rw [hback fuel (by omega)]

/-- With a backward tree that has not grown, the child of the goal is dereferenced. -/
theorem Runs.extractPath_of_bare (hs : Runs s) (hboth : Both s) (hh : s.heap.Ending)
    (hbare : Bare s) : ∃ N, ∀ fuel, N ≤ fuel → s.extractPath fuel = .error .nullNode := by
  obtain ⟨g, hnodes, hnone⟩ := hbare
  have hstart : (s.heap.roadmap s.Tstart).nodes ≠ [] := hs.trees.ne_nil false
  have hmid : s.heap.lastAddedNode s.Tstart =
      some ((s.heap.roadmap s.Tstart).nodes.getLast hstart) :=
    List.getLast?_eq_some_getLast hstart
  have hg : s.heap.lastAddedNode s.Tgoal = some g := congrArg List.getLast? hnodes
  obtain ⟨front, N, hfront⟩ := exists_readBack hh false
    (hh.lt s.Tstart _ (List.getLast_mem hstart))
  have hchild : (s.heap.node g).child 0 = none := hnone
  refine ⟨N, fun fuel hfuel ↦ ?_⟩
  rw [extractPath, hmid, hg]
  dsimp only
  rw [readForward, if_pos hboth.1, hfront fuel hfuel]
  dsimp only
  rw [readBackward, if_pos hboth.2, if_pos hboth.1, hchild]

/-- The trials begin with the goal alone in the backward tree. -/
theorem Idle.bare_plant (hs : Idle s) : Bare s.plant := by
  refine ⟨s.heap.size + 1, ?_, ?_⟩
  · exact (nodes_plant_goal hs.ne).trans (by rw [hs.nodes_goal]; rfl)
  · simp [Heap.link, node_plant, RoadmapNode.child]

end

/-- **When a failed run is harmless.** After any sequence of calls on a new object, a call of
`calcPath` with both trees on whose trials are exhausted returns false exactly when the backward
tree has been extended in one of the trials; otherwise it dereferences a null node. -/
theorem failed_calcPath_iff {cfg : C} {maxTrials : ℤ} {eps : K}
    (hcalls : Relation.ReflTransGen (Call planner) (RRT.new cfg maxTrials eps) s)
    (hboth : s.extendFromStart = true ∧ s.extendFromGoal = true)
    (htrials : s.plant.trials planner fuel s.maxTrials.toNat = .ok (s', false)) :
    ((∃ N s', ∀ fuel, N ≤ fuel → s.calcPath planner fuel = .ok (s', false)) ↔
        ExtendsBackward planner fuel s.maxTrials.toNat s.plant) ∧
      (¬ ExtendsBackward planner fuel s.maxTrials.toNat s.plant →
        ∃ N, ∀ fuel, N ≤ fuel → s.calcPath planner fuel = .error .nullNode) := by
  have hidle := idle_of_calls hcalls
  have hplant : Runs s.plant := hidle.plant (.inl rfl) (.inl rfl)
  have hh : s'.heap.Ending := ending_trials (ending_plant (ending_of_calls hcalls)) htrials
  obtain ⟨hruns, hboth', hgrown, hbare⟩ := hplant.trials hboth htrials
  have hnull : ¬ ExtendsBackward planner fuel s.maxTrials.toNat s.plant →
      ∃ N, ∀ fuel, N ≤ fuel → s.calcPath planner fuel = .error .nullNode := by
    intro hnot
    obtain ⟨N, hpath⟩ := hruns.extractPath_of_bare hboth' hh (hbare hidle.bare_plant hnot)
    refine ⟨max fuel N, fun fuel' hfuel ↦ ?_⟩
    rw [calcPath, trials_mono (le_of_max_le_left hfuel) htrials]
    dsimp only
    rw [hpath fuel' (le_of_max_le_right hfuel)]
  refine ⟨⟨?_, fun hgrows ↦ ?_⟩, hnull⟩
  · rintro ⟨N, s₁, hcalc⟩
    by_contra hnot
    obtain ⟨N', herror⟩ := hnull hnot
    have hok := hcalc (max N N') (le_max_left _ _)
    rw [herror _ (le_max_right _ _)] at hok
    cases hok
  · obtain ⟨path, N, hpath⟩ := hruns.extractPath_of_grown hboth' hh (hgrown (.inr hgrows))
    refine ⟨max fuel N, { s' with path := path, heap := s'.heap.integrate s'.Tgoal s'.Tstart },
      fun fuel' hfuel ↦ ?_⟩
    rw [calcPath, trials_mono (le_of_max_le_left hfuel) htrials]
    dsimp only
    rw [hpath fuel' (le_of_max_le_right hfuel)]

end Calls

/-- The robot on the line, with both trees on and a check that turns every connection down. -/
def refused : RRT ℚ ℚ :=
  { RRT.new 0 1 100 with
    goal := 10, extendFromGoal := true, extraConnectionCheckFunc := some fun _ ↦ false }

theorem calls_refused : Relation.ReflTransGen (Call line) (RRT.new 0 1 100) refused :=
  ((Relation.ReflTransGen.single (.setGoalConfiguration _ 10)).tail (.extendFromGoal _ true)).tail
    (.setExtraConnectionCheckFunc _ (some fun _ ↦ false))

theorem failed_calcPath_line : ∃ s', refused.plant.trials line 10 1 = .ok (s', false) ∧
    ((∃ N s', ∀ fuel, N ≤ fuel → refused.calcPath line fuel = .ok (s', false)) ↔
        ExtendsBackward line 10 1 refused.plant) ∧
      (¬ ExtendsBackward line 10 1 refused.plant →
        ∃ N, ∀ fuel, N ≤ fuel → refused.calcPath line fuel = .error .nullNode) := by
  obtain ⟨s', htrials, -⟩ := exists_of_outcome
    (by decide +kernel : outcome (refused.plant.trials line 10 1) = some ([], false))
  exact ⟨s', htrials, failed_calcPath_iff calls_refused ⟨rfl, rfl⟩ htrials⟩

/-- The robot on the line, with both trees on and no trial at all. -/
def untried : RRT ℚ ℚ :=
  { RRT.new 0 0 100 with extendFromGoal := true }

/-- Without a trial the goal has no child: it is dereferenced, and false is not returned. -/
theorem not_harmless_line :
    (∃ N, ∀ fuel, N ≤ fuel → untried.calcPath line fuel = .error .nullNode) ∧
      ¬ ∃ N s', ∀ fuel, N ≤ fuel → untried.calcPath line fuel = .ok (s', false) := by
  have hnull : ∀ fuel, 1 ≤ fuel → untried.calcPath line fuel = .error .nullNode := by
    intro fuel hfuel
    obtain ⟨fuel, rfl⟩ := Nat.exists_eq_add_of_le' hfuel
    rfl
  refine ⟨⟨1, hnull⟩, fun ⟨N, s', hcalc⟩ ↦ ?_⟩
  have hok := hcalc (max N 1) (le_max_left _ _)
  rw [hnull _ (le_max_right _ _)] at hok
  cases hok

end RRT

end OpenHRP.PathEngine
