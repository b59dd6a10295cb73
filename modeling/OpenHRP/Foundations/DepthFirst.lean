import Mathlib.Data.Finset.Card
import Mathlib.Data.List.Chain

/-!
# Depth-first search with a path

The invariant of a search that keeps the path from its start to where it stands, and the set of the
nodes that it has marked. The last node of the path is followed by an unmarked successor (`push`) or
given up when there is none (`pop`). What has been given up has only marked successors, so a search
that gives up its start has marked everything within reach (`not_reachable`).

`potential` goes down with every step, since a node is marked once.
-/

namespace DepthFirst

variable {α : Type*} {next : α → List α} {S : Finset α} {start goal : α} {path : List α}
  {visited : α → Bool} {a b : α}

/-- `b` is a successor of `a`. -/
def Edge (next : α → List α) (a b : α) : Prop :=
  b ∈ next a

/-- The state of a search from `start` for `goal` among the nodes of `S`. -/
structure Inv (next : α → List α) (S : Finset α) (start goal : α) (path : List α)
    (visited : α → Bool) : Prop where
  chain : path.IsChain (Edge next)
  nodup : path.Nodup
  head : ∀ a ∈ path.head?, a = start
  mem : ∀ a ∈ path, a ∈ S ∧ visited a = true
  /-- A node that has been given up has only marked successors. -/
  done : ∀ a ∈ S, visited a = true → a ∉ path → ∀ b ∈ next a, visited b = true
  visited_start : visited start = true
  /-- When the goal is marked, the search stands there. -/
  visited_goal : visited goal = true → path.getLast? = some goal

theorem Inv.init [DecidableEq α] (hstart : start ∈ S) (hnone : ∀ a ∈ S, visited a = false)
    (hgoal : goal ∈ S) : Inv next S start goal [start] (Function.update visited start true) where
  chain := .singleton start
  nodup := List.nodup_singleton start
  head := fun a ha ↦ (Option.some.inj ha).symm
  mem := fun a ha ↦ by
    rw [List.mem_singleton.1 ha, Function.update_self]
    exact ⟨hstart, rfl⟩
  done := fun a ha hvisited hne ↦ by
    rw [Function.update_of_ne fun h ↦ hne (List.mem_singleton.2 h), hnone a ha] at hvisited
    cases hvisited
  visited_start := Function.update_self start true visited
  visited_goal := fun hvisited ↦ by
    rcases eq_or_ne goal start with rfl | hne
    · rfl
    · rw [Function.update_of_ne hne, hnone goal hgoal] at hvisited
      cases hvisited

/-- The search goes on to an unmarked successor. -/
theorem Inv.push [DecidableEq α] (h : Inv next S start goal path visited)
    (hlast : path.getLast? = some a) (ha : a ≠ goal) (hb : b ∈ next a) (hbS : b ∈ S)
    (hnew : visited b = false) :
    Inv next S start goal (path ++ [b]) (Function.update visited b true) := by
  have hpath : b ∉ path := fun hmem ↦ by
    rw [(h.mem b hmem).2] at hnew
    cases hnew
  have hmono : ∀ c, visited c = true → Function.update visited b true c = true := fun c hc ↦ by
    rcases eq_or_ne c b with rfl | hne
    · exact Function.update_self _ _ _
    · rwa [Function.update_of_ne hne]
  have hold : ∀ c, Function.update visited b true c = true → c ≠ b → visited c = true :=
    fun c hc hne ↦ by rwa [Function.update_of_ne hne] at hc
  constructor
  · refine List.isChain_append.2 ⟨h.chain, .singleton b, fun x hx y hy ↦ ?_⟩
    rw [hlast] at hx
    cases hx
    cases hy
    exact hb
  · rw [List.nodup_append]
    refine ⟨h.nodup, List.nodup_singleton b, fun x hx y hy ↦ ?_⟩
    rw [List.mem_singleton.1 hy]
    exact ne_of_mem_of_not_mem hx hpath
  · cases path with
    | nil => cases hlast
    | cons c path => exact h.head
  · intro x hx
    rcases List.mem_append.1 hx with hx | hx
    · exact ⟨(h.mem x hx).1, hmono x (h.mem x hx).2⟩
    · rw [List.mem_singleton.1 hx]
      exact ⟨hbS, Function.update_self _ _ _⟩
  · intro x hx hvisited hne y hy
    rw [List.mem_append, List.mem_singleton, not_or] at hne
    exact hmono y (h.done x hx (hold x hvisited hne.2) hne.1 y hy)
  · exact hmono start h.visited_start
  · intro hvisited
    rw [List.getLast?_append]
    rcases eq_or_ne goal b with rfl | hne
    · rfl
    · have hgoal := h.visited_goal (hold goal hvisited hne)
      rw [hlast] at hgoal
      exact absurd (Option.some.inj hgoal) ha

/-- The search gives up its last node, all of whose successors are marked. -/
theorem Inv.pop (h : Inv next S start goal path visited) (hlast : path.getLast? = some a)
    (ha : a ≠ goal) (hnext : ∀ b ∈ next a, visited b = true) :
    Inv next S start goal path.dropLast visited := by
  obtain ⟨front, rfl⟩ : ∃ front, path = front ++ [a] :=
    ⟨path.dropLast, (List.dropLast_append_getLast? a hlast).symm⟩
  have hfront : a ∉ front := fun hmem ↦
    (List.nodup_append.1 h.nodup).2.2 a hmem a (List.mem_singleton_self a) rfl
  rw [List.dropLast_concat]
  constructor
  · exact (List.isChain_append.1 h.chain).1
  · exact (List.nodup_append.1 h.nodup).1
  · intro x hx
    refine h.head x ?_
    rw [List.head?_append, hx]
    rfl
  · exact fun x hx ↦ h.mem x (List.mem_append_left _ hx)
  · intro x hx hvisited hne y hy
    rcases eq_or_ne x a with rfl | hxa
    · exact hnext y hy
    · refine h.done x hx hvisited (fun hmem ↦ ?_) y hy
      exact (List.mem_append.1 hmem).elim hne fun hmem ↦ hxa (List.mem_singleton.1 hmem)
  · exact h.visited_start
  · intro hvisited
    have hgoal := h.visited_goal hvisited
    rw [hlast] at hgoal
    exact absurd (Option.some.inj hgoal) ha

/-- A search that has given up its start has marked what is within reach, and not the goal. -/
theorem Inv.not_reachable (h : Inv next S start goal [] visited)
    (hclosed : ∀ a ∈ S, ∀ b ∈ next a, b ∈ S) (hstart : start ∈ S) :
    ¬ Relation.ReflTransGen (Edge next) start goal := by
  intro hreach
  have hmarked : ∀ a, Relation.ReflTransGen (Edge next) start a → a ∈ S ∧ visited a = true := by
    intro a ha
    induction ha with
    | refl => exact ⟨hstart, h.visited_start⟩
    | tail _ hedge ih =>
      exact ⟨hclosed _ ih.1 _ hedge, h.done _ ih.1 ih.2 List.not_mem_nil _ hedge⟩
  have hgoal := h.visited_goal (hmarked goal hreach).2
  cases hgoal

/-- A search that stands at the goal has found a path to it. -/
theorem Inv.reachable (h : Inv next S start goal path visited) (hlast : path.getLast? = some goal) :
    path.head? = some start ∧ Relation.ReflTransGen (Edge next) start goal := by
  cases path with
  | nil => cases hlast
  | cons a path =>
    obtain rfl := h.head a rfl
    have hend := (List.getLast?_eq_some_getLast (List.cons_ne_nil a path)).symm.trans hlast
    exact ⟨rfl, List.relationReflTransGen_of_exists_isChain_cons path h.chain
      (Option.some.inj hend)⟩

/-- A bound on the steps that a search still takes. -/
def potential (S : Finset α) (path : List α) (visited : α → Bool) : ℕ :=
  2 * (S.filter fun a ↦ visited a = false).card + path.length

theorem potential_singleton_le (S : Finset α) (a : α) (visited : α → Bool) :
    potential S [a] visited ≤ 2 * S.card + 1 :=
  Nat.add_le_add_right (Nat.mul_le_mul_left 2 (Finset.card_filter_le _ _)) 1

theorem potential_push [DecidableEq α] (hb : b ∈ S) (hnew : visited b = false) :
    potential S (path ++ [b]) (Function.update visited b true) < potential S path visited := by
  have hlt : (S.filter fun a ↦ Function.update visited b true a = false).card <
      (S.filter fun a ↦ visited a = false).card := by
    refine Finset.card_lt_card ⟨fun x hx ↦ ?_, fun hsub ↦ ?_⟩
    · rw [Finset.mem_filter] at hx ⊢
      rcases eq_or_ne x b with rfl | hne
      · exact ⟨hx.1, hnew⟩
      · exact ⟨hx.1, by simpa only [Function.update_of_ne hne] using hx.2⟩
    · have hmem := (Finset.mem_filter.1 (hsub (Finset.mem_filter.2 ⟨hb, hnew⟩))).2
      rw [Function.update_self] at hmem
      cases hmem
  rw [potential, potential, List.length_append, List.length_singleton]
  omega

theorem potential_pop (hlast : path.getLast? = some a) :
    potential S path.dropLast visited < potential S path visited := by
  have hpos : path ≠ [] := fun h ↦ by
    rw [h] at hlast
    cases hlast
  have hlt := List.length_pos_iff.2 hpos
  rw [potential, potential, List.length_dropLast]
  omega

end DepthFirst
