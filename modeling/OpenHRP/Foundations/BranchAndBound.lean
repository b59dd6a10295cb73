import OpenHRP.Foundations.Literals
import Mathlib.Order.Lattice

/-!
# Branch and bound

A finite search tree whose leaves are the candidates of a minimisation and whose nodes carry a
lower bound for the values below them. `minimise` improves a candidate by a depth-first search that
skips every node whose bound exceeds the value it has, `firstWithin` looks for a candidate within a
tolerance and skips every node whose bound exceeds it.

When the bounds are lower bounds (`Bounds`), nothing is lost: the search from any candidate ends
with a minimal one (`minimise_le`, `minimise_eq_or_mem`), and a candidate within the tolerance is
found if and only if there is one (`exists_firstWithin_iff`).
-/

variable {K ι : Type*}

/-- A search tree: candidates at the leaves, a lower bound at every node. -/
inductive SearchTree (K ι : Type*)
  | leaf (bound : K) (candidate : ι)
  | branch (bound : K) (first second : SearchTree K ι)

namespace SearchTree

/-- The candidates of a tree, in the order of the search. -/
def candidates : SearchTree K ι → List ι
  | leaf _ i => [i]
  | branch _ first second => first.candidates ++ second.candidates

section Search

variable [LT K] [DecidableLT K] [LE K] [DecidableLE K] (value : ι → K)

/-- Search for a candidate with a smaller value than the best one so far. -/
def minimise : SearchTree K ι → ι → ι
  | leaf bound i, best =>
    if value best < bound then best else if value i < value best then i else best
  | branch bound first second, best =>
    if value best < bound then best else second.minimise (first.minimise best)

/-- Search for the first candidate with a value of at most `tolerance`. -/
def firstWithin (tolerance : K) : SearchTree K ι → Option ι
  | leaf bound i =>
    if tolerance < bound then none else if value i ≤ tolerance then some i else none
  | branch bound first second =>
    if tolerance < bound then none
    else (first.firstWithin tolerance).or (second.firstWithin tolerance)

end Search

/-- The bound of every node is a lower bound for the values of the candidates below it. -/
def Bounds [LE K] (value : ι → K) : SearchTree K ι → Prop
  | leaf bound i => bound ≤ value i
  | branch bound first second =>
    (∀ i ∈ first.candidates ++ second.candidates, bound ≤ value i) ∧
      first.Bounds value ∧ second.Bounds value

variable [LinearOrder K] {value : ι → K}

theorem minimise_le_self (t : SearchTree K ι) (best : ι) :
    value (t.minimise value best) ≤ value best := by
  induction t generalizing best with
  | leaf bound i =>
    rw [minimise]
    split
    · exact le_rfl
    · split
      · next hlt => exact hlt.le
      · exact le_rfl
  | branch bound first second ih₁ ih₂ =>
    rw [minimise]
    split
    · exact le_rfl
    · exact (ih₂ _).trans (ih₁ best)

variable {t : SearchTree K ι}

/-- The search loses no candidate: what it ends with is at most as large as each of them. -/
theorem minimise_le (ht : t.Bounds value) (best : ι) :
    ∀ i ∈ t.candidates, value (t.minimise value best) ≤ value i := by
  induction t generalizing best with
  | leaf bound j =>
    intro i hi
    obtain rfl : i = j := List.mem_singleton.1 hi
    rw [minimise]
    split
    · next hskip => exact (hskip.trans_le ht).le
    · split
      · exact le_rfl
      · next hge => exact not_lt.1 hge
  | branch bound first second ih₁ ih₂ =>
    obtain ⟨hbound, h₁, h₂⟩ := ht
    intro i hi
    rw [minimise]
    split
    · next hskip => exact (hskip.trans_le (hbound i hi)).le
    · rcases List.mem_append.1 hi with hi | hi
      · exact (second.minimise_le_self _).trans (ih₁ h₁ best i hi)
      · exact ih₂ h₂ _ i hi

/-- The search ends with the candidate it began with or with one of the tree. -/
theorem minimise_eq_or_mem (t : SearchTree K ι) (value : ι → K) (best : ι) :
    t.minimise value best = best ∨ t.minimise value best ∈ t.candidates := by
  induction t generalizing best with
  | leaf bound i =>
    rw [minimise]
    split
    · exact .inl rfl
    · split
      · exact .inr (List.mem_singleton_self i)
      · exact .inl rfl
  | branch bound first second ih₁ ih₂ =>
    rw [minimise]
    split
    · exact .inl rfl
    · rcases ih₂ (first.minimise value best) with h₂ | h₂
      · rw [h₂]
        exact (ih₁ best).imp_right (List.mem_append_left _)
      · exact .inr (List.mem_append_right _ h₂)

theorem firstWithin_spec {tolerance : K} {i : ι} (hi : t.firstWithin value tolerance = some i) :
    i ∈ t.candidates ∧ value i ≤ tolerance := by
  induction t with
  | leaf bound j =>
    rw [firstWithin] at hi
    split at hi
    · cases hi
    · split at hi
      · next hle =>
        cases hi
        exact ⟨List.mem_singleton_self _, hle⟩
      · cases hi
  | branch bound first second ih₁ ih₂ =>
    rw [firstWithin] at hi
    split at hi
    · cases hi
    · rcases Option.or_eq_some_iff.1 hi with h | ⟨-, h⟩
      · exact (ih₁ h).imp_left (List.mem_append_left _)
      · exact (ih₂ h).imp_left (List.mem_append_right _)

/-- A candidate within the tolerance is found exactly when there is one. -/
theorem exists_firstWithin_iff (ht : t.Bounds value) {tolerance : K} :
    (∃ i, t.firstWithin value tolerance = some i) ↔ ∃ i ∈ t.candidates, value i ≤ tolerance := by
  constructor
  · rintro ⟨i, hi⟩
    exact ⟨i, firstWithin_spec hi⟩
  · rintro ⟨i, hi, hle⟩
    induction t with
    | leaf bound j =>
      obtain rfl : i = j := List.mem_singleton.1 hi
      exact ⟨i, by rw [firstWithin, if_neg (not_lt.2 (ht.trans hle)), if_pos hle]⟩
    | branch bound first second ih₁ ih₂ =>
      obtain ⟨hbound, h₁, h₂⟩ := ht
      rw [firstWithin, if_neg (not_lt.2 ((hbound i hi).trans hle))]
      rcases hfirst : first.firstWithin value tolerance with _ | j
      · rcases List.mem_append.1 hi with hi | hi
        · obtain ⟨j, hj⟩ := ih₁ h₁ hi
          rw [hfirst] at hj
          cases hj
        · exact ih₂ h₂ hi
      · exact ⟨j, rfl⟩

end SearchTree
