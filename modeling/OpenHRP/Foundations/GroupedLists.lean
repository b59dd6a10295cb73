import Mathlib.Data.List.Induction
import Mathlib.Data.List.Nodup

/-!
# Lists in groups

The values of a list of pairs, put into one list for each key. A key has its group at the place of
its first value, and the values of a group stand as they do in the list.
-/

namespace OpenHRP

variable {κ α : Type*} [DecidableEq κ]

/-- Append a value to the group of its key, which is new for a new key. -/
def insertGroup (k : κ) (a : α) : List (κ × List α) → List (κ × List α)
  | [] => [(k, [a])]
  | (k', as) :: groups =>
    if k' = k then (k', as ++ [a]) :: groups else (k', as) :: insertGroup k a groups

/-- The groups of a list of pairs. -/
def grouped (l : List (κ × α)) : List (κ × List α) :=
  l.foldl (fun groups x ↦ insertGroup x.1 x.2 groups) []

theorem grouped_concat (l : List (κ × α)) (x : κ × α) :
    grouped (l ++ [x]) = insertGroup x.1 x.2 (grouped l) :=
  List.foldl_concat ..

variable {k k' : κ} {a b : α} {as : List α} {groups : List (κ × List α)} {l : List (κ × α)}

theorem mem_of_mem_insertGroup (h : (k', as) ∈ insertGroup k a groups) :
    (k', as) ∈ groups ∨ k' = k ∧ (as = [a] ∨ ∃ as', (k, as') ∈ groups ∧ as = as' ++ [a]) := by
  induction groups with
  | nil =>
    rw [insertGroup, List.mem_singleton, Prod.mk.injEq] at h
    exact .inr ⟨h.1, .inl h.2⟩
  | cons x groups ih =>
    obtain ⟨k₁, as₁⟩ := x
    rw [insertGroup] at h
    split at h
    · next hk =>
      rcases List.mem_cons.1 h with heq | hmem
      · rw [Prod.mk.injEq] at heq
        exact .inr ⟨heq.1.trans hk, .inr ⟨as₁, by rw [hk]; exact .head _, heq.2⟩⟩
      · exact .inl (.tail _ hmem)
    · rcases List.mem_cons.1 h with heq | hmem
      · exact .inl (heq ▸ .head _)
      · refine (ih hmem).imp (.tail _) (And.imp_right (Or.imp_right ?_))
        rintro ⟨as', has', heq⟩
        exact ⟨as', .tail _ has', heq⟩

theorem exists_mem_insertGroup_self (k : κ) (a : α) (groups : List (κ × List α)) :
    ∃ as, (k, as) ∈ insertGroup k a groups ∧ a ∈ as := by
  induction groups with
  | nil => exact ⟨[a], .head _, .head _⟩
  | cons x groups ih =>
    obtain ⟨k₁, as₁⟩ := x
    rw [insertGroup]
    split
    · next hk => exact ⟨as₁ ++ [a], hk ▸ .head _, by simp⟩
    · obtain ⟨as, has, ha⟩ := ih
      exact ⟨as, .tail _ has, ha⟩

theorem exists_mem_insertGroup (h : ∃ as, (k', as) ∈ groups ∧ b ∈ as) (k : κ) (a : α) :
    ∃ as, (k', as) ∈ insertGroup k a groups ∧ b ∈ as := by
  obtain ⟨as, has, hb⟩ := h
  induction groups with
  | nil => nomatch has
  | cons x groups ih =>
    obtain ⟨k₁, as₁⟩ := x
    rw [insertGroup]
    rcases List.mem_cons.1 has with heq | hmem
    · obtain ⟨rfl, rfl⟩ := Prod.mk.inj heq
      split
      · exact ⟨as ++ [a], .head _, List.mem_append_left _ hb⟩
      · exact ⟨as, .head _, hb⟩
    · split
      · exact ⟨as, .tail _ hmem, hb⟩
      · obtain ⟨as', has', hb'⟩ := ih hmem
        exact ⟨as', .tail _ has', hb'⟩

theorem map_fst_insertGroup (k : κ) (a : α) (groups : List (κ × List α)) :
    (insertGroup k a groups).map Prod.fst =
      if k ∈ groups.map Prod.fst then groups.map Prod.fst else groups.map Prod.fst ++ [k] := by
  induction groups with
  | nil => rfl
  | cons x groups ih =>
    obtain ⟨k₁, as₁⟩ := x
    rw [insertGroup]
    by_cases hk : k₁ = k
    · simp [hk]
    · rw [if_neg hk, List.map_cons, ih, List.map_cons]
      have hne : k ≠ k₁ := fun h ↦ hk h.symm
      by_cases hmem : k ∈ groups.map Prod.fst
      · rw [if_pos hmem, if_pos (.tail _ hmem)]
      · rw [if_neg hmem, if_neg fun h ↦ (List.mem_cons.1 h).elim hne hmem, List.cons_append]

theorem nodup_grouped (l : List (κ × α)) : ((grouped l).map Prod.fst).Nodup := by
  induction l using List.reverseRecOn with
  | nil => exact List.nodup_nil
  | append_singleton l x ih =>
    rw [grouped_concat, map_fst_insertGroup]
    split
    · exact ih
    · next hmem =>
      refine List.nodup_append.2 ⟨ih, List.nodup_singleton _, fun k hk k' hk' heq ↦ hmem ?_⟩
      rw [← List.mem_singleton.1 hk', ← heq]
      exact hk

/-- The values of a group are those of its key. -/
theorem mem_of_mem_grouped (h : (k, as) ∈ grouped l) (ha : a ∈ as) : (k, a) ∈ l := by
  induction l using List.reverseRecOn generalizing as with
  | nil => nomatch h
  | append_singleton l x ih =>
    rw [grouped_concat] at h
    rcases mem_of_mem_insertGroup h with hold | ⟨hk, rfl | ⟨as', has', rfl⟩⟩
    · exact List.mem_append_left _ (ih hold ha)
    · rw [List.mem_singleton.1 ha, hk]
      exact List.mem_append_right _ (.head _)
    · rcases List.mem_append.1 ha with hold | hnew
      · exact List.mem_append_left _ (ih (hk ▸ has') hold)
      · rw [List.mem_singleton.1 hnew, hk]
        exact List.mem_append_right _ (.head _)

theorem ne_nil_of_mem_grouped (h : (k, as) ∈ grouped l) : as ≠ [] := by
  induction l using List.reverseRecOn generalizing as with
  | nil => nomatch h
  | append_singleton l x ih =>
    rw [grouped_concat] at h
    rcases mem_of_mem_insertGroup h with hold | ⟨-, rfl | ⟨as', -, rfl⟩⟩
    · exact ih hold
    · exact List.cons_ne_nil _ _
    · exact List.append_ne_nil_of_right_ne_nil _ (List.cons_ne_nil _ _)

/-- Each value is in the group of its key. -/
theorem exists_mem_grouped (h : (k, a) ∈ l) : ∃ as, (k, as) ∈ grouped l ∧ a ∈ as := by
  induction l using List.reverseRecOn with
  | nil => nomatch h
  | append_singleton l x ih =>
    rw [grouped_concat]
    rcases List.mem_append.1 h with hold | hnew
    · exact exists_mem_insertGroup (ih hold) _ _
    · rw [← List.mem_singleton.1 hnew]
      exact exists_mem_insertGroup_self k a _

/-- Values of one key are one group. -/
theorem grouped_of_forall (h : ∀ x ∈ l, x.1 = k) (hl : l ≠ []) :
    grouped l = [(k, l.map Prod.snd)] := by
  induction l using List.reverseRecOn with
  | nil => exact absurd rfl hl
  | append_singleton l x ih =>
    have hx : x.1 = k := h x (List.mem_append_right _ (.head _))
    rw [grouped_concat, hx]
    rcases eq_or_ne l [] with rfl | hne
    · rfl
    · rw [ih (fun y hy ↦ h y (List.mem_append_left _ hy)) hne, insertGroup, if_pos rfl,
        List.map_append, List.map_singleton]

end OpenHRP
