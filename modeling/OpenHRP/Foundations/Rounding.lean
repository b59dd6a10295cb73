import OpenHRP.Foundations.Literals
import Mathlib.Algebra.Order.Round
import Mathlib.Data.Int.Log
import Mathlib.Tactic.Ring

/-!
# Rounding to binary floating point

`roundEven` is the nearest integer, the even one of two at the same distance, and `roundBits p` the
nearest number with `p` significant bits. The range of the exponents is not bounded, as is adequate
where neither overflow nor underflow can occur.

Rounding does not cross a number `m * 2 ^ e` that is representable (`roundBits_le`,
`le_roundBits`), so it keeps such numbers (`roundBits_eq`), and it changes a number by one part in
`2 ^ p` at most (`roundBits_le_mul`).
-/

variable {K : Type*} [Field K] [LinearOrder K] [FloorRing K]

/-- The nearest integer, ties going to the even one. -/
def roundEven (q : K) : ℤ :=
  let z := ⌊q⌋
  if q < z + 1 / 2 then z else if z + 1 / 2 < q then z + 1 else if z % 2 = 0 then z else z + 1

/-- The distance of neighbouring numbers with `p` significant bits at the magnitude of `q`. -/
def ulp (p : ℕ) (q : K) : K :=
  2 ^ (Int.log 2 q + 1 - p)

/-- The nearest number with `p` significant bits, for numbers that are not negative. -/
def roundBits (p : ℕ) (q : K) : K :=
  roundEven (q / ulp p q) * ulp p q

variable [IsStrictOrderedRing K] {p : ℕ} {q : K} {z e : ℤ} {m : ℕ}

theorem abs_roundEven_sub_le (q : K) : |(roundEven q : K) - q| ≤ 1 / 2 := by
  have hle := Int.floor_le q
  have hlt := Int.lt_floor_add_one q
  rw [roundEven, abs_le]
  split_ifs <;> push_cast <;> constructor <;> linarith

theorem roundEven_le (h : q ≤ z) : roundEven q ≤ z := by
  have habs := (abs_le.1 (abs_roundEven_sub_le q)).2
  have hlt : (roundEven q : K) < ((z + 1 : ℤ) : K) := by
    push_cast
    linarith
  exact Int.lt_add_one_iff.1 (Int.cast_lt.1 hlt)

theorem le_roundEven (h : (z : K) ≤ q) : z ≤ roundEven q := by
  have habs := (abs_le.1 (abs_roundEven_sub_le q)).1
  have hlt : ((z - 1 : ℤ) : K) < (roundEven q : K) := by
    push_cast
    linarith
  exact Int.sub_one_lt_iff.1 (Int.cast_lt.1 hlt)

/-- A number at a half or less below an even integer is rounded up to it. -/
theorem le_roundEven_of_even (hz : z % 2 = 0) (h : (z : K) - 1 / 2 ≤ q) : z ≤ roundEven q := by
  rcases le_or_gt (z : K) q with hle | hlt
  · exact le_roundEven hle
  · have hfloor : ⌊q⌋ = z - 1 := by
      rw [Int.floor_eq_iff]
      push_cast
      constructor <;> linarith
    rw [roundEven, hfloor]
    push_cast
    rw [if_neg (by linarith), if_neg (show ¬(z - 1) % 2 = 0 by omega), ite_self]
    omega

theorem ulp_pos (p : ℕ) (q : K) : 0 < ulp p q :=
  zpow_pos two_pos _

@[simp]
theorem roundBits_zero (p : ℕ) : roundBits p (0 : K) = 0 := by
  have h : roundEven (0 : K) = 0 := by
    simp [roundEven]
  rw [roundBits, zero_div, h, Int.cast_zero, zero_mul]

theorem two_zpow_log_le (hq : 0 < q) : (2 : K) ^ Int.log 2 q ≤ q := by
  simpa using Int.zpow_log_le_self (b := 2) one_lt_two hq

/-- At the magnitude of `q`, a representable number is a multiple of the unit or less than the
power of two below `q`. -/
theorem exists_mul_ulp_or_lt (hm : m < 2 ^ p) (q : K) (e : ℤ) :
    (∃ k : ℤ, (m * 2 ^ e : K) = k * ulp p q) ∨ (m * 2 ^ e : K) < 2 ^ Int.log 2 q := by
  rcases le_or_gt (Int.log 2 q + 1 - p) e with hle | hlt
  · obtain ⟨n, hn⟩ := Int.le.dest hle
    refine .inl ⟨m * 2 ^ n, ?_⟩
    rw [ulp, ← hn, zpow_add₀ two_ne_zero, zpow_natCast]
    push_cast
    ring
  · right
    calc (m * 2 ^ e : K) < 2 ^ p * 2 ^ e :=
          mul_lt_mul_of_pos_right (mod_cast hm) (zpow_pos two_pos e)
      _ = 2 ^ ((p : ℤ) + e) := by rw [zpow_add₀ two_ne_zero, zpow_natCast]
      _ ≤ 2 ^ Int.log 2 q := zpow_le_zpow_right₀ one_le_two (by omega)

theorem roundBits_le (hq : 0 < q) (hm : m < 2 ^ p) (h : q ≤ m * 2 ^ e) :
    roundBits p q ≤ m * 2 ^ e := by
  rcases exists_mul_ulp_or_lt hm q e with ⟨k, hk⟩ | hlt
  · rw [hk] at h ⊢
    refine mul_le_mul_of_nonneg_right (Int.cast_le.2 (roundEven_le ?_)) (ulp_pos p q).le
    rwa [div_le_iff₀ (ulp_pos p q)]
  · exact absurd (two_zpow_log_le hq) (by linarith)

theorem le_roundBits (hq : 0 < q) (hp : 0 < p) (hm : m < 2 ^ p) (h : m * 2 ^ e ≤ q) :
    m * 2 ^ e ≤ roundBits p q := by
  rcases exists_mul_ulp_or_lt hm q e with ⟨k, hk⟩ | hlt
  · rw [hk] at h ⊢
    refine mul_le_mul_of_nonneg_right (Int.cast_le.2 (le_roundEven ?_)) (ulp_pos p q).le
    rwa [le_div_iff₀ (ulp_pos p q)]
  · -- the power of two below `q` is a multiple of the unit
    have hpow : ((2 ^ (p - 1) : ℤ) : K) * ulp p q = 2 ^ Int.log 2 q := by
      rw [ulp, Int.cast_pow, Int.cast_two, ← zpow_natCast, ← zpow_add₀ two_ne_zero]
      congr 1
      omega
    have hround : (2 ^ (p - 1) : ℤ) ≤ roundEven (q / ulp p q) := by
      refine le_roundEven ?_
      rw [le_div_iff₀ (ulp_pos p q), hpow]
      exact two_zpow_log_le hq
    calc (m * 2 ^ e : K) ≤ ((2 ^ (p - 1) : ℤ) : K) * ulp p q := by rw [hpow]; exact hlt.le
      _ ≤ roundBits p q := mul_le_mul_of_nonneg_right (Int.cast_le.2 hround) (ulp_pos p q).le

/-- Rounding keeps the numbers with `p` significant bits. -/
theorem roundBits_eq (hp : 0 < p) (hm : m < 2 ^ p) (e : ℤ) :
    roundBits p (m * 2 ^ e : K) = m * 2 ^ e := by
  rcases m.eq_zero_or_pos with rfl | hpos
  · simp
  · have hq : (0 : K) < m * 2 ^ e := mul_pos (Nat.cast_pos.2 hpos) (zpow_pos two_pos e)
    exact le_antisymm (roundBits_le hq hm le_rfl) (le_roundBits hq hp hm le_rfl)

/-- The relative error of rounding. -/
theorem roundBits_le_mul (hq : 0 < q) : roundBits p q ≤ q * (1 + 1 / 2 ^ p) := by
  have hulp : ulp p q / 2 ≤ q / 2 ^ p := by
    have heq : ulp p q / 2 = 2 ^ Int.log 2 q / 2 ^ p := by
      rw [ulp, zpow_sub₀ two_ne_zero, zpow_add_one₀ two_ne_zero, zpow_natCast]
      field_simp
    rw [heq]
    exact div_le_div_of_nonneg_right (two_zpow_log_le hq) (pow_pos two_pos p).le
  have hround := (abs_le.1 (abs_roundEven_sub_le (q / ulp p q))).2
  calc roundBits p q ≤ (q / ulp p q + 1 / 2) * ulp p q :=
        mul_le_mul_of_nonneg_right (by linarith) (ulp_pos p q).le
    _ = q + ulp p q / 2 := by
        rw [add_mul, div_mul_cancel₀ q (ulp_pos p q).ne']
        ring
    _ ≤ q * (1 + 1 / 2 ^ p) := by
        rw [mul_add, mul_one, mul_one_div]
        linarith
