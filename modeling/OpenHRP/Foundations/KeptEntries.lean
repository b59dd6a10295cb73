import Mathlib.Data.List.Basic

/-!
# The entries that a filter keeps

An entry that a filter keeps stands at a place of the list, and has a number among the kept ones.
The two are the same if and only if nothing before it has been left out
(`snd_getElem_keptEntries_eq_iff`).
-/

namespace OpenHRP

variable {α : Type*}

/-- The entries that are kept, with their places in the list. -/
def keptEntries (keep : α → Bool) (l : List α) : List (α × ℕ) :=
  l.zipIdx.filter fun entry ↦ keep entry.1

variable {keep : α → Bool} {l : List α} {u k : ℕ} {entry : α × ℕ}

theorem map_fst_keptEntries (keep : α → Bool) (l : List α) :
    (keptEntries keep l).map Prod.fst = l.filter keep := by
  conv_rhs => rw [← List.zipIdx_map_fst 0 l, List.filter_map]
  rfl

theorem getElem?_of_mem_keptEntries (h : entry ∈ keptEntries keep l) :
    l[entry.2]? = some entry.1 :=
  List.mem_zipIdx_iff_getElem?.1 (List.mem_filter.1 h).1

theorem keep_of_mem_keptEntries (h : entry ∈ keptEntries keep l) : keep entry.1 = true :=
  (List.mem_filter.1 h).2

/-- The number of a kept entry is not more than its place. -/
theorem add_le_of_getElem?_filter_zipIdx
    (h : ((l.zipIdx k).filter fun entry ↦ keep entry.1)[u]? = some entry) : k + u ≤ entry.2 := by
  induction l generalizing k u with
  | nil => exact absurd h (Option.some_ne_none _).symm
  | cons x l ih =>
    rw [List.zipIdx_cons] at h
    rcases hx : keep x with - | -
    · rw [List.filter_cons_of_neg (by simpa using hx)] at h
      have hle := ih h
      omega
    · rw [List.filter_cons_of_pos (by exact hx)] at h
      rcases u with - | u
      · exact Nat.le_of_eq (congrArg Prod.snd (Option.some.inj h))
      · have hle := ih (u := u) h
        omega

theorem snd_eq_add_iff (h : ((l.zipIdx k).filter fun entry ↦ keep entry.1)[u]? = some entry) :
    entry.2 = k + u ↔ ∀ x ∈ l.take (entry.2 - k), keep x = true := by
  induction l generalizing k u with
  | nil => exact absurd h (Option.some_ne_none _).symm
  | cons x l ih =>
    rw [List.zipIdx_cons] at h
    rcases hx : keep x with - | -
    · rw [List.filter_cons_of_neg (by simpa using hx)] at h
      have hle := add_le_of_getElem?_filter_zipIdx h
      obtain ⟨d, hd⟩ : ∃ d, entry.2 - k = d + 1 := ⟨entry.2 - k - 1, by omega⟩
      rw [hd, List.take_succ_cons]
      refine ⟨fun heq ↦ by omega, fun hall ↦ ?_⟩
      rw [hall x List.mem_cons_self] at hx
      exact absurd hx.symm Bool.false_ne_true
    · rw [List.filter_cons_of_pos (by exact hx)] at h
      rcases u with - | u
      · have hk : k = entry.2 := congrArg Prod.snd (Option.some.inj h)
        rw [hk, Nat.sub_self, List.take_zero, Nat.add_zero]
        exact ⟨fun _ y hy ↦ absurd hy List.not_mem_nil, fun _ ↦ rfl⟩
      · have hle := add_le_of_getElem?_filter_zipIdx (u := u) h
        have hd : entry.2 - k = entry.2 - (k + 1) + 1 := by omega
        rw [hd, List.take_succ_cons, List.forall_mem_cons, ← ih h, Nat.succ_add_eq_add_succ]
        exact ⟨fun heq ↦ ⟨hx, heq⟩, And.right⟩

/-- The place of a kept entry is its number if and only if no entry before it is left out. -/
theorem snd_getElem_keptEntries_eq_iff (h : (keptEntries keep l)[u]? = some entry) :
    entry.2 = u ↔ ∀ x ∈ l.take entry.2, keep x = true := by
  have hiff := snd_eq_add_iff h
  rwa [Nat.zero_add, Nat.sub_zero] at hiff

end OpenHRP
