import OpenHRP.Foundations.Literals
import Mathlib.Algebra.Order.Archimedean.Basic

/-!
# Schedules

A clock that advances by `d` meets the multiples of a longer period `s` up to half a step:
`window s d k` is the stretch of length `d` around `k * s`, which contains exactly one of the times
`n * d` (`existsUnique_mul_mem_window`).

An event of rate `r` with phase `a` happens `⌈n * r - a⌉` times in the first `n` steps. From step
`m` on it has the schedule of a new start if and only if `m * r` is an integer
(`forall_ceil_sub_eq_iff`).
-/

namespace Schedule

variable {K : Type*} [Field K] [LinearOrder K]

/-- The times around the multiple `k * s` of a period, half a step `d` to either side. -/
def window (s d : K) (k : ℕ) : Set K :=
  Set.Ico (k * s - d / 2) (k * s + d / 2)

variable [IsStrictOrderedRing K] [FloorRing K] {s d t r a : K}

theorem mul_mem_window_iff (hd : 0 < d) (k n : ℕ) :
    n * d ∈ window s d k ↔ ⌈(k * s - d / 2) / d⌉ = n := by
  rw [window, Set.mem_Ico, Int.ceil_eq_iff, div_le_iff₀ hd, lt_div_iff₀ hd, Int.cast_natCast]
  constructor <;> rintro ⟨h, h'⟩ <;> constructor <;> linarith

/-- Exactly one step falls into each window. -/
theorem existsUnique_mul_mem_window (hd : 0 < d) (hs : d ≤ s) (k : ℕ) :
    ∃! n : ℕ, n * d ∈ window s d k := by
  simp only [mul_mem_window_iff hd]
  have hks : (0 : K) ≤ k * s := mul_nonneg k.cast_nonneg (hd.le.trans hs)
  have hnonneg : 0 ≤ ⌈(k * s - d / 2) / d⌉ := by
    refine Int.ceil_nonneg_of_neg_one_lt ?_
    rw [lt_div_iff₀ hd]
    linarith
  obtain ⟨n, hn⟩ := Int.eq_ofNat_of_zero_le hnonneg
  refine ⟨n, hn, fun m hm ↦ ?_⟩
  exact Int.ofNat_inj.1 (hm.symm.trans hn)

/-- A time is in a window if and only if its remainder by the period is near to `0` or to `s`. -/
theorem exists_mem_window_iff (hs : 0 < s) (hd : 0 < d) (ht : 0 ≤ t) :
    (∃ k, t ∈ window s d k) ↔ t - ⌊t / s⌋ * s < d / 2 ∨ s - d / 2 ≤ t - ⌊t / s⌋ * s := by
  obtain ⟨q, hq⟩ := Int.eq_ofNat_of_zero_le (Int.floor_nonneg.2 (div_nonneg ht hs.le))
  have hle := Int.floor_le (t / s)
  have hlt := Int.lt_floor_add_one (t / s)
  rw [hq, Int.cast_natCast] at hle hlt ⊢
  rw [le_div_iff₀ hs] at hle
  rw [div_lt_iff₀ hs] at hlt
  simp only [window, Set.mem_Ico]
  constructor
  · rintro ⟨k, hk, hk'⟩
    rcases Nat.lt_or_ge q k with h | h
    · have hmul : ((q + 1 : ℕ) : K) * s ≤ k * s :=
        mul_le_mul_of_nonneg_right (Nat.cast_le.2 h) hs.le
      push_cast at hmul
      exact .inr (by linarith)
    · have hmul : (k : K) * s ≤ q * s := mul_le_mul_of_nonneg_right (Nat.cast_le.2 h) hs.le
      exact .inl (by linarith)
  · rintro (h | h)
    · exact ⟨q, by linarith, by linarith⟩
    · refine ⟨q + 1, ?_, ?_⟩ <;> push_cast <;> linarith

/-- A step has one event more if and only if the number of events before it has been passed. -/
theorem ceil_succ_eq (hr : 0 ≤ r) (hr' : r ≤ 1) (a : K) (n : ℕ) :
    ⌈((n + 1 : ℕ) : K) * r - a⌉ =
      if (⌈n * r - a⌉ : K) < (n + 1 : ℕ) * r - a then ⌈n * r - a⌉ + 1 else ⌈n * r - a⌉ := by
  have hle := Int.le_ceil (n * r - a)
  have hlt := Int.ceil_lt_add_one (n * r - a)
  rw [Int.ceil_eq_iff]
  split_ifs with h <;> push_cast at h ⊢ <;> constructor <;> linarith

/-- The events from step `m` on are those of a new start if and only if `m * r` is an integer. -/
theorem forall_ceil_sub_eq_iff (ha : 0 ≤ a) (ha' : a < 1) (m : ℕ) :
    (∀ n : ℕ, ⌈((m + n : ℕ) : K) * r - a⌉ - ⌈m * r - a⌉ = ⌈n * r - a⌉) ↔
      ∃ z : ℤ, m * r = z := by
  constructor
  · intro h
    -- after `j` times `m` steps there are `j` times as many events, so the rate per `m` steps is
    -- exact up to `1 / j`
    have hmul (j : ℕ) : ⌈((j * m : ℕ) : K) * r - a⌉ = j * ⌈m * r - a⌉ := by
      induction j with
      | zero =>
        have h0 := h 0
        rw [Nat.add_zero, sub_self] at h0
        rw [Nat.zero_mul, ← h0, Nat.cast_zero, zero_mul]
      | succ j ih =>
        have hj := h (j * m)
        rw [ih] at hj
        rw [Nat.succ_mul, Nat.add_comm, ← sub_add_cancel ⌈_⌉ ⌈(m : K) * r - a⌉, hj, Nat.cast_succ,
          add_one_mul]
    refine ⟨⌈m * r - a⌉, ?_⟩
    set e : K := m * r - ⌈m * r - a⌉ with he
    have hlt (j : ℕ) : j * |e| < 1 := by
      have hj := hmul j
      rw [Int.ceil_eq_iff] at hj
      push_cast at hj
      have heq : (j : K) * |e| = |j * e| := by rw [abs_mul, Nat.abs_cast]
      rw [heq, he, abs_lt]
      constructor <;> linarith [hj.1, hj.2]
    by_contra hne
    have hpos : 0 < |e| := abs_pos.2 (sub_ne_zero.2 hne)
    obtain ⟨j, hj⟩ := Archimedean.arch 1 hpos
    rw [nsmul_eq_mul] at hj
    exact absurd (hlt j) (not_lt.2 hj)
  · rintro ⟨z, hz⟩ n
    have hm : ⌈m * r - a⌉ = z := by
      rw [hz, Int.ceil_eq_iff]
      constructor <;> linarith
    have hn : ((m + n : ℕ) : K) * r - a = n * r - a + z := by
      rw [Nat.cast_add, ← hz]
      ring
    rw [hn, hm, Int.ceil_add_intCast, add_sub_cancel_right]

end Schedule
