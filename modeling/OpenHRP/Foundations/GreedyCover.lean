import Mathlib.Data.List.Induction
import Mathlib.Data.List.Pairwise
import Mathlib.Order.Lattice

/-!
# Greedy covers

A list is thinned out by keeping, in its order, what is near nothing that has been kept before.
What is kept is separated: nothing in it is near a later one. It covers the list: what is left out
is near something that is kept. No law of nearness is asked for.
-/

namespace OpenHRP.GreedyCover

variable {α : Type*} (near : α → α → Prop) [DecidableRel near]

/-- Keep `x`, unless something that has been kept is near it. -/
def keep (kept : List α) (x : α) : List α :=
  if ∃ y ∈ kept, near y x then kept else kept ++ [x]

/-- What is kept of a list. -/
def select (xs : List α) : List α :=
  xs.foldl (keep near) []

@[simp]
theorem select_nil : select near ([] : List α) = [] :=
  rfl

theorem select_append (xs : List α) (x : α) :
    select near (xs ++ [x]) = keep near (select near xs) x := by
  rw [select, List.foldl_append]
  rfl

variable {near}

theorem keep_of_near {kept : List α} {x : α} (h : ∃ y ∈ kept, near y x) :
    keep near kept x = kept :=
  if_pos h

theorem keep_of_not_near {kept : List α} {x : α} (h : ¬∃ y ∈ kept, near y x) :
    keep near kept x = kept ++ [x] :=
  if_neg h

theorem subset_keep (kept : List α) (x : α) : kept ⊆ keep near kept x := by
  by_cases h : ∃ y ∈ kept, near y x
  · rw [keep_of_near h]
    exact List.Subset.refl kept
  · rw [keep_of_not_near h]
    exact List.subset_append_left _ _

/-- What is kept stands in the order of the list. -/
theorem select_sublist (xs : List α) : (select near xs).Sublist xs := by
  induction xs using List.reverseRecOn with
  | nil => exact List.Sublist.refl _
  | append_singleton xs x ih =>
    rw [select_append]
    by_cases h : ∃ y ∈ select near xs, near y x
    · rw [keep_of_near h]
      exact ih.trans (List.sublist_append_left _ _)
    · rw [keep_of_not_near h]
      exact ih.append (List.Sublist.refl _)

theorem pairwise_select (xs : List α) : (select near xs).Pairwise fun y x ↦ ¬near y x := by
  induction xs using List.reverseRecOn with
  | nil => exact List.Pairwise.nil
  | append_singleton xs x ih =>
    rw [select_append]
    by_cases h : ∃ y ∈ select near xs, near y x
    · rwa [keep_of_near h]
    · rw [keep_of_not_near h, List.pairwise_append]
      refine ⟨ih, List.pairwise_singleton _ _, fun y hy z hz hnear ↦ h ⟨y, hy, ?_⟩⟩
      rwa [List.mem_singleton.1 hz] at hnear

theorem mem_select_or_near {xs : List α} {x : α} (hx : x ∈ xs) :
    x ∈ select near xs ∨ ∃ y ∈ select near xs, near y x := by
  induction xs using List.reverseRecOn with
  | nil => exact absurd hx List.not_mem_nil
  | append_singleton xs z ih =>
    rw [select_append]
    obtain hx | hx := List.mem_append.1 hx
    · obtain hmem | ⟨y, hy, hnear⟩ := ih hx
      · exact .inl (subset_keep _ z hmem)
      · exact .inr ⟨y, subset_keep _ z hy, hnear⟩
    · rw [List.mem_singleton.1 hx]
      by_cases h : ∃ y ∈ select near xs, near y z
      · rw [keep_of_near h]
        exact .inr h
      · rw [keep_of_not_near h]
        exact .inl (List.mem_append_right _ (List.mem_singleton_self z))

/-- Thinning out the images by nearness of the images. -/
theorem select_map {β : Type*} (f : β → α) (xs : List β) :
    select near (xs.map f) = (select (fun a b ↦ near (f a) (f b)) xs).map f := by
  induction xs using List.reverseRecOn with
  | nil => rfl
  | append_singleton xs x ih =>
    rw [List.map_append, List.map_singleton, select_append, select_append, ih]
    simp only [keep, List.mem_map, exists_exists_and_eq_and]
    split <;> simp

/-- In a list that increases, no kept element is near a greater one. -/
theorem not_near_of_lt [LinearOrder α] {xs : List α} (hxs : xs.Pairwise (· < ·)) {y x : α}
    (hy : y ∈ select near xs) (hx : x ∈ select near xs) (hlt : y < x) : ¬near y x := by
  have hsorted : (select near xs).Pairwise (· < ·) := hxs.sublist (select_sublist xs)
  have hboth : (select near xs).Pairwise fun a b ↦
      (a < b ∧ ¬near a b) ∨ (b < a ∧ ¬near b a) :=
    (hsorted.and (pairwise_select xs)).imp fun h ↦ .inl h
  have : Std.Symm fun a b ↦ (a < b ∧ ¬near a b) ∨ (b < a ∧ ¬near b a) := ⟨fun _ _ h ↦ h.symm⟩
  obtain ⟨-, h⟩ | ⟨hgt, -⟩ := hboth.forall hy hx (ne_of_lt hlt)
  · exact h
  · exact absurd hlt (lt_asymm hgt)

end OpenHRP.GreedyCover
