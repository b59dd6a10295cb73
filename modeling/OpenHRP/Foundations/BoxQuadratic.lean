import Mathlib.Algebra.Order.Field.Basic
import Mathlib.Tactic.Linarith
import Mathlib.Tactic.Ring
import OpenHRP.Foundations.Literals

/-!
# The least value of a quadratic function on the unit square

A quadratic function of two variables `s` and `t`, each between zero and one, whose quadratic part
is not negative, has its least value exactly where no admissible change of one variable alone lowers
it (`isStationary_iff_forall_value_le`).

Such a place is found by solving for one variable at a time: when `s` is right for the value of `t`
that is best for it, either this value lies between zero and one, or it is cut off, and then the
best `s` for the cut off value completes the pair (`isStationary_zero`, `isStationary_one`).
-/

variable {K : Type*} [Field K] [LinearOrder K]

/-- The function `a * s ^ 2 - 2 * b * s * t + c * t ^ 2 + 2 * d * s - 2 * e * t`. -/
structure BoxQuadratic (K : Type*) where
  a : K
  b : K
  c : K
  d : K
  e : K

namespace BoxQuadratic

section Definitions

variable (q : BoxQuadratic K)

def value (s t : K) : K :=
  q.a * s * s - 2 * (q.b * s * t) + q.c * t * t + 2 * (q.d * s) - 2 * (q.e * t)

/-- Half of the derivative in `s`. -/
def slopeS (s t : K) : K :=
  q.a * s - q.b * t + q.d

/-- Half of the derivative in `t`. -/
def slopeT (s t : K) : K :=
  q.c * t - q.b * s - q.e

/-- The quadratic part. -/
def form (x y : K) : K :=
  q.a * x * x - 2 * (q.b * x * y) + q.c * y * y

/-- No admissible change of `s` alone lowers the value. -/
def BestS (s t : K) : Prop :=
  ∀ s', 0 ≤ s' → s' ≤ 1 → 0 ≤ q.slopeS s t * (s' - s)

/-- No admissible change of `t` alone lowers the value. -/
def BestT (s t : K) : Prop :=
  ∀ t', 0 ≤ t' → t' ≤ 1 → 0 ≤ q.slopeT s t * (t' - t)

/-- A place in the unit square where no change of one variable alone lowers the value. -/
structure IsStationary (s t : K) : Prop where
  s_nonneg : 0 ≤ s
  s_le_one : s ≤ 1
  t_nonneg : 0 ≤ t
  t_le_one : t ≤ 1
  bestS : q.BestS s t
  bestT : q.BestT s t

end Definitions

variable {q : BoxQuadratic K} {s t s' t' : K}

omit [LinearOrder K] in
theorem value_sub (s t s' t' : K) :
    q.value s' t' - q.value s t =
      2 * (q.slopeS s t * (s' - s) + q.slopeT s t * (t' - t)) + q.form (s' - s) (t' - t) := by
  simp only [value, slopeS, slopeT, form]
  ring

variable [IsStrictOrderedRing K]

/-- The value elsewhere in the square exceeds that at a stationary place by the form at least. -/
theorem IsStationary.form_le (h : q.IsStationary s t) (hs : 0 ≤ s') (hs' : s' ≤ 1) (ht : 0 ≤ t')
    (ht' : t' ≤ 1) : q.form (s' - s) (t' - t) ≤ q.value s' t' - q.value s t := by
  have h₁ := h.bestS s' hs hs'
  have h₂ := h.bestT t' ht ht'
  rw [value_sub]
  linarith

/-- A stationary place has the least value. -/
theorem IsStationary.value_le (h : q.IsStationary s t) (hform : ∀ x y, 0 ≤ q.form x y)
    (hs : 0 ≤ s') (hs' : s' ≤ 1) (ht : 0 ≤ t') (ht' : t' ≤ 1) : q.value s t ≤ q.value s' t' :=
  sub_nonneg.1 ((hform _ _).trans (h.form_le hs hs' ht ht'))

theorem IsStationary.value_lt (h : q.IsStationary s t) (hs : 0 ≤ s') (hs' : s' ≤ 1) (ht : 0 ≤ t')
    (ht' : t' ≤ 1) (hpos : 0 < q.form (s' - s) (t' - t)) : q.value s t < q.value s' t' :=
  sub_pos.1 (hpos.trans_le (h.form_le hs hs' ht ht'))

/-! ### Positive forms -/

omit [LinearOrder K] [IsStrictOrderedRing K] in
theorem mul_form (x y : K) :
    q.a * q.form x y = (q.a * x - q.b * y) * (q.a * x - q.b * y) +
      (q.a * q.c - q.b * q.b) * (y * y) := by
  simp only [form]
  ring

theorem form_nonneg (ha : 0 < q.a) (hD : 0 ≤ q.a * q.c - q.b * q.b) (x y : K) :
    0 ≤ q.form x y := by
  refine (mul_nonneg_iff_of_pos_left ha).1 ?_
  rw [mul_form]
  exact add_nonneg (mul_self_nonneg _) (mul_nonneg hD (mul_self_nonneg _))

theorem form_pos (ha : 0 < q.a) (hD : 0 < q.a * q.c - q.b * q.b) {x y : K} (h : x ≠ 0 ∨ y ≠ 0) :
    0 < q.form x y := by
  refine (mul_pos_iff_of_pos_left ha).1 ?_
  rw [mul_form]
  by_cases hy : y = 0
  · have hx := h.resolve_right (not_not.2 hy)
    rw [hy, mul_zero, sub_zero, mul_zero, mul_zero, add_zero]
    exact mul_self_pos.2 (mul_ne_zero ha.ne' hx)
  · exact add_pos_of_nonneg_of_pos (mul_self_nonneg _) (mul_pos hD (mul_self_pos.2 hy))

theorem form_pos_left (ha : 0 < q.a) {x : K} (hx : x ≠ 0) : 0 < q.form x 0 := by
  have : q.form x 0 = q.a * (x * x) := by
    simp only [form]
    ring
  rw [this]
  exact mul_pos ha (mul_self_pos.2 hx)

theorem form_pos_right (hc : 0 < q.c) {y : K} (hy : y ≠ 0) : 0 < q.form 0 y := by
  have : q.form 0 y = q.c * (y * y) := by
    simp only [form]
    ring
  rw [this]
  exact mul_pos hc (mul_self_pos.2 hy)

/-! ### Places of the least value -/

theorem bestT_zero_iff : q.BestT s 0 ↔ q.b * s + q.e ≤ 0 := by
  have hslope : q.slopeT s 0 = -(q.b * s + q.e) := by
    rw [slopeT]
    ring
  simp only [BestT, hslope, sub_zero]
  refine ⟨fun h ↦ ?_, fun h t' ht _ ↦ mul_nonneg (neg_nonneg.2 h) ht⟩
  have := h 1 zero_le_one le_rfl
  linarith

theorem bestT_one_iff : q.BestT s 1 ↔ q.c ≤ q.b * s + q.e := by
  have hslope : q.slopeT s 1 = q.c - (q.b * s + q.e) := by
    rw [slopeT]
    ring
  simp only [BestT, hslope]
  refine ⟨fun h ↦ ?_, fun h t' _ ht ↦
    mul_nonneg_of_nonpos_of_nonpos (sub_nonpos.2 h) (sub_nonpos.2 ht)⟩
  have := h 0 le_rfl zero_le_one
  linarith

/-- The value of `s` that is best for `t` is unique. -/
theorem BestS.eq (ha : 0 < q.a) (h : q.BestS s t) (h' : q.BestS s' t) (hs : 0 ≤ s) (hs₁ : s ≤ 1)
    (hs' : 0 ≤ s') (hs₁' : s' ≤ 1) : s = s' := by
  have h₁ := h s' hs' hs₁'
  have h₂ := h' s hs hs₁
  have hsum : q.slopeS s t * (s' - s) + q.slopeS s' t * (s - s') =
      -(q.a * ((s' - s) * (s' - s))) := by
    simp only [slopeS]
    ring
  have hsquare : (s' - s) * (s' - s) ≤ 0 := by
    refine nonpos_of_mul_nonpos_right ?_ ha
    linarith
  have hzero := mul_self_eq_zero.1 (le_antisymm hsquare (mul_self_nonneg (s' - s)))
  exact (sub_eq_zero.1 hzero).symm

/-- A linear term that is negative is greater in absolute value than a square term, near zero. -/
theorem nonneg_of_forall_mul_nonneg {x y : K}
    (h : ∀ r, 0 ≤ r → r ≤ 1 → 0 ≤ r * (2 * x + r * y)) : 0 ≤ x := by
  by_contra hx
  rw [not_le] at hx
  -- at the lesser of `1` and `-x / y`
  obtain hle | hlt := le_or_gt y (-x)
  · have := h 1 zero_le_one le_rfl
    linarith
  · have hypos : 0 < y := (neg_pos.2 hx).trans hlt
    have hr : 0 < -x / y := div_pos (neg_pos.2 hx) hypos
    have hmul := (mul_nonneg_iff_of_pos_left hr).1 (h _ hr.le ((div_le_one hypos).2 hlt.le))
    rw [div_mul_cancel₀ _ hypos.ne'] at hmul
    linarith

/-- A place of the least value is stationary. -/
theorem isStationary_iff_forall_value_le (ha : 0 < q.a)
    (hD : 0 ≤ q.a * q.c - q.b * q.b) (hs : 0 ≤ s) (hs₁ : s ≤ 1) (ht : 0 ≤ t) (ht₁ : t ≤ 1) :
    q.IsStationary s t ↔
      ∀ s' t', 0 ≤ s' → s' ≤ 1 → 0 ≤ t' → t' ≤ 1 → q.value s t ≤ q.value s' t' := by
  refine ⟨fun h s' t' hs' hs₁' ht' ht₁' ↦ h.value_le (form_nonneg ha hD) hs' hs₁' ht' ht₁',
    fun h ↦ ⟨hs, hs₁, ht, ht₁, fun s' hs' hs₁' ↦ ?_, fun t' ht' ht₁' ↦ ?_⟩⟩
  · refine nonneg_of_forall_mul_nonneg (y := q.a * ((s' - s) * (s' - s))) fun r hr hr₁ ↦ ?_
    have hle := h (s + r * (s' - s)) t (by nlinarith) (by nlinarith) ht ht₁
    rw [← sub_nonneg, value_sub] at hle
    refine hle.trans_eq ?_
    simp only [form]
    ring
  · refine nonneg_of_forall_mul_nonneg (y := q.c * ((t' - t) * (t' - t))) fun r hr hr₁ ↦ ?_
    have hle := h s (t + r * (t' - t)) hs hs₁ (by nlinarith) (by nlinarith)
    rw [← sub_nonneg, value_sub] at hle
    refine hle.trans_eq ?_
    simp only [form]
    ring

/-! ### One variable at a time -/

/-- The quotient `n / a`, cut off at zero and one. -/
def clampDiv (n a : K) : K :=
  if n < 0 then 0 else if a < n then 1 else n / a

theorem clampDiv_mem {n a : K} (ha : 0 < a) : 0 ≤ clampDiv n a ∧ clampDiv n a ≤ 1 := by
  rw [clampDiv]
  split_ifs with h₀ h₁
  · exact ⟨le_rfl, zero_le_one⟩
  · exact ⟨zero_le_one, le_rfl⟩
  · exact ⟨div_nonneg (not_lt.1 h₀) ha.le, (div_le_one ha).2 (not_lt.1 h₁)⟩

omit [IsStrictOrderedRing K] in
theorem clampDiv_of_le {n a : K} (ha : 0 < a) (h : a ≤ n) : clampDiv n a = 1 := by
  rw [clampDiv, if_neg (ha.le.trans h).not_gt]
  split_ifs with hlt
  · rfl
  · rw [← h.antisymm (not_lt.1 hlt), div_self ha.ne']

/-- The value of `s` that is best for `t`. -/
theorem bestS_clampDiv (ha : 0 < q.a) (t : K) : q.BestS (clampDiv (q.b * t - q.d) q.a) t := by
  intro s' hs hs'
  rw [clampDiv, slopeS]
  split_ifs with h₀ h₁
  · exact mul_nonneg (by linarith) (by linarith)
  · exact mul_nonneg_of_nonpos_of_nonpos (by linarith) (by linarith)
  · rw [mul_div_cancel₀ _ ha.ne']
    linarith

/-- When `s` is best for the value `t` that is best for `s`, and `t₀` is between zero and one, then
the slope in `t` at `t₀` and at the `s₀` that is best for `t₀` leads from `t` to `t₀` at most. -/
theorem slopeT_mul_nonneg (hc : 0 < q.c) (hD : 0 ≤ q.a * q.c - q.b * q.b) {s₀ t₀ : K}
    (ht : q.slopeT s t = 0) (hs : 0 ≤ q.slopeS s t * (s₀ - s))
    (hs₀ : 0 ≤ q.slopeS s₀ t₀ * (s - s₀)) : 0 ≤ q.slopeT s₀ t₀ * (t₀ - t) := by
  set x := s₀ - s with hx
  set y := t₀ - t with hy
  have hslope : q.slopeT s₀ t₀ = q.c * y - q.b * x := by
    rw [← sub_zero (q.slopeT s₀ t₀), ← ht]
    simp only [slopeT, hx, hy]
    ring
  -- the two changes of `s` together
  have hax : q.a * (x * x) ≤ q.b * x * y := by
    have hneg : s - s₀ = -x := by rw [hx, neg_sub]
    have hsum : q.slopeS s₀ t₀ = q.slopeS s t + (q.a * x - q.b * y) := by
      simp only [slopeS, hx, hy]
      ring
    rw [hneg, hsum] at hs₀
    linarith
  have hsquare : q.b * x * (q.b * x) ≤ q.c * y * (q.b * x) := by
    have h₁ : 0 ≤ (q.a * q.c - q.b * q.b) * (x * x) := mul_nonneg hD (mul_self_nonneg x)
    have h₂ := mul_le_mul_of_nonneg_left hax hc.le
    linarith
  rw [hslope]
  -- `q.b * x` lies between zero and `q.c * y`
  obtain hbx | hbx := eq_or_ne (q.b * x) 0
  · rw [hbx, sub_zero, mul_assoc]
    exact mul_nonneg hc.le (mul_self_nonneg y)
  · have hpos : 0 < q.b * x * (q.b * x) := mul_self_pos.2 hbx
    have hcy : 0 < q.c * y * (q.b * x) := hpos.trans_le hsquare
    have hprod : 0 ≤ (q.c * y - q.b * x) * (q.b * x) := by linarith
    have h : 0 ≤ (q.c * y - q.b * x) * (q.c * y) := by
      obtain hlt | hgt := lt_or_gt_of_ne hbx
      · exact mul_nonneg_of_nonpos_of_nonpos (nonpos_of_mul_nonneg_left hprod hlt)
          (neg_of_mul_pos_left hcy hlt.le).le
      · exact mul_nonneg ((mul_nonneg_iff_of_pos_right hgt).1 hprod)
          ((mul_pos_iff_of_pos_right hgt).1 hcy).le
    have hc' : (q.c * y - q.b * x) * (q.c * y) = q.c * ((q.c * y - q.b * x) * y) := by ring
    rw [hc'] at h
    exact (mul_nonneg_iff_of_pos_left hc).1 h

omit [IsStrictOrderedRing K] in
/-- When `t` is between zero and one already. -/
theorem isStationary_of_mem (hs : 0 ≤ s) (hs' : s ≤ 1) (ht : 0 ≤ t) (ht' : t ≤ 1)
    (hbest : q.BestS s t) (hslope : q.slopeT s t = 0) : q.IsStationary s t :=
  ⟨hs, hs', ht, ht', hbest, fun t' _ _ ↦ by rw [hslope, zero_mul]⟩

/-- When `t` is cut off at zero. -/
theorem isStationary_zero (ha : 0 < q.a) (hc : 0 < q.c) (hD : 0 ≤ q.a * q.c - q.b * q.b)
    (hs : 0 ≤ s) (hs' : s ≤ 1) (ht : t < 0) (hbest : q.BestS s t) (hslope : q.slopeT s t = 0) :
    q.IsStationary (clampDiv (q.b * 0 - q.d) q.a) 0 := by
  have hmem := clampDiv_mem (n := q.b * 0 - q.d) ha
  have hclamp := bestS_clampDiv ha (q := q) 0
  refine ⟨hmem.1, hmem.2, le_rfl, zero_le_one, hclamp, fun t' ht₀ _ ↦ ?_⟩
  have h := slopeT_mul_nonneg hc hD hslope (hbest _ hmem.1 hmem.2) (hclamp s hs hs')
  rw [zero_sub] at h
  rw [sub_zero]
  exact mul_nonneg ((mul_nonneg_iff_of_pos_right (neg_pos.2 ht)).1 h) ht₀

/-- When `t` is cut off at one. -/
theorem isStationary_one (ha : 0 < q.a) (hc : 0 < q.c) (hD : 0 ≤ q.a * q.c - q.b * q.b)
    (hs : 0 ≤ s) (hs' : s ≤ 1) (ht : 1 < t) (hbest : q.BestS s t) (hslope : q.slopeT s t = 0) :
    q.IsStationary (clampDiv (q.b * 1 - q.d) q.a) 1 := by
  have hmem := clampDiv_mem (n := q.b * 1 - q.d) ha
  have hclamp := bestS_clampDiv ha (q := q) 1
  refine ⟨hmem.1, hmem.2, zero_le_one, le_rfl, hclamp, fun t' _ ht₁ ↦ ?_⟩
  have h := slopeT_mul_nonneg hc hD hslope (hbest _ hmem.1 hmem.2) (hclamp s hs hs')
  exact mul_nonneg_of_nonpos_of_nonpos (nonpos_of_mul_nonneg_left h (sub_neg.2 ht))
    (sub_nonpos.2 ht₁)

end BoxQuadratic
