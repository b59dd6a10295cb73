import Mathlib.Data.Nat.Periodic

/-!
# Marked places on a cycle

The places on a cycle of `n` places are numbered without end: a place has all the numbers with its
remainder modulo `n`, and what holds of the places is a periodic function of the number. So a walk
along the cycle never turns back, and once around is any `n` numbers in sequence; where it starts
matters for the order only (`perm_map_filter_add`).

A walk that goes from one marked place to the next one visits exactly the marked places of the range
it covers (`filter_range'_of_isNextMark`).
-/

namespace CyclicMarks

section Windows

variable {α : Type*} {n : ℕ} {F : ℕ → α}

/-- Once around the cycle, from any place. -/
theorem perm_map_range' (hF : Function.Periodic F n) (a : ℕ) :
    ((List.range' a n).map F).Perm ((List.range n).map F) := by
  have hcomp : (F ∘ fun x ↦ x % n) = F := funext hF.map_mod_nat
  have hmod := congrArg (Multiset.map F) (Nat.multiset_Ico_map_mod a n)
  rw [Multiset.map_map, hcomp] at hmod
  have hIco : Multiset.Ico a (a + n) = (List.range' a n : Multiset ℕ) := by
    show ((List.range' a (a + n - a) : List ℕ) : Multiset ℕ) = _
    rw [Nat.add_sub_cancel_left]
  rw [hIco] at hmod
  exact Multiset.coe_eq_coe.1 hmod

/-- Once around the cycle, with the places numbered from another one. -/
theorem perm_map_add (hF : Function.Periodic F n) (m : ℕ) :
    ((List.range n).map fun k ↦ F (k + m)).Perm ((List.range n).map F) := by
  refine List.Perm.trans ?_ (perm_map_range' hF m)
  rw [List.range'_eq_map_range, List.map_map]
  refine List.Perm.of_eq (List.map_congr_left fun k _ ↦ ?_)
  rw [Function.comp_apply, add_comm]

end Windows

section Filter

variable {α : Type*} {n : ℕ} {C : ℕ → Bool} {F : ℕ → α}

theorem comp_add_mod (hF : Function.Periodic F n) (m : ℕ) :
    (F ∘ fun k ↦ (k + m) % n) = fun k ↦ F (k + m) :=
  funext fun k ↦ hF.map_mod_nat (k + m)

/-- The marked places once around the cycle, numbered from another one. -/
theorem perm_map_filter_add (hC : Function.Periodic C n) (hF : Function.Periodic F n) (m : ℕ) :
    (((List.range n).filter fun k ↦ C (k + m)).map fun k ↦ F (k + m)).Perm
      (((List.range n).filter C).map F) := by
  have hmod :=
    ((perm_map_add (n := n) (F := (· % n)) (fun k ↦ Nat.add_mod_right k n) m).filter C).map F
  have hrange : (List.range n).map (· % n) = List.range n := by
    refine (List.map_congr_left fun k hk ↦ ?_).trans (List.map_id _)
    exact Nat.mod_eq_of_lt (List.mem_range.1 hk)
  rw [hrange, List.filter_map, List.map_map, comp_add_mod hC, comp_add_mod hF] at hmod
  exact hmod

end Filter

/-- `k'` is the next marked number after `k`. -/
structure IsNextMark (C : ℕ → Bool) (k k' : ℕ) : Prop where
  lt : k < k'
  mark : C k' = true
  between : ∀ i, k < i → i < k' → ¬C i = true

/-- A number less than once around after a place is not of this place. -/
theorem mod_ne_of_lt {n s k : ℕ} (hs : s < n) (hlt : s < k) (hlt' : k < s + n) : k % n ≠ s := by
  obtain hk | hk := lt_or_ge k n
  · rw [Nat.mod_eq_of_lt hk]
    exact hlt.ne'
  · rw [Nat.mod_eq_sub_mod hk, Nat.mod_eq_of_lt (by omega)]
    omega

section Marks

variable {C : ℕ → Bool} {a b c k k' : ℕ}

theorem range'_split (hab : a ≤ b) (hbc : b ≤ c) :
    List.range' a (c - a) = List.range' a (b - a) ++ List.range' b (c - b) := by
  have happend := List.range'_append_1 (s := a) (m := b - a) (n := c - b)
  rw [Nat.add_sub_cancel' hab] at happend
  rw [happend]
  congr 1
  omega

theorem filter_range'_eq_nil (h : ∀ i, a ≤ i → i < b → ¬C i = true) :
    (List.range' a (b - a)).filter C = [] := by
  refine List.filter_eq_nil_iff.2 fun i hi ↦ ?_
  obtain ⟨h₁, h₂⟩ := List.mem_range'_1.1 hi
  exact h i h₁ (by omega)

/-- The first part of a range without marks contributes nothing. -/
theorem filter_range'_of_forall_not_left (hab : a ≤ b) (hbc : b ≤ c)
    (h : ∀ i, a ≤ i → i < b → ¬C i = true) :
    (List.range' a (c - a)).filter C = (List.range' b (c - b)).filter C := by
  rw [range'_split hab hbc, List.filter_append, filter_range'_eq_nil h, List.nil_append]

/-- The last part of a range without marks contributes nothing. -/
theorem filter_range'_of_forall_not_right (hab : a ≤ b) (hbc : b ≤ c)
    (h : ∀ i, b ≤ i → i < c → ¬C i = true) :
    (List.range' a (c - a)).filter C = (List.range' a (b - a)).filter C := by
  rw [range'_split hab hbc, List.filter_append, filter_range'_eq_nil h, List.append_nil]

theorem filter_range'_of_isNextMark (hk : C k = true) (h : IsNextMark C k k') (hle : k' ≤ b) :
    (List.range' k (b - k)).filter C = k :: (List.range' k' (b - k')).filter C := by
  have hlt := h.lt
  rw [← filter_range'_of_forall_not_left (a := k + 1) hlt hle fun i hi hi' ↦ h.between i hi hi',
    show b - k = b - (k + 1) + 1 by omega, List.range'_succ, List.filter_cons_of_pos hk]

end Marks

end CyclicMarks
