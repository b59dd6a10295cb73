import OpenHRP.Foundations.Rotation
import Mathlib.Algebra.Order.Field.Basic
import Mathlib.LinearAlgebra.Matrix.DotProduct

/-!
# The axis of a rotation

The skew part of a rotation by an angle `q` about a unit vector `a` is `sin q • hat a`, and its
symmetric part a combination of the identity and of the products of the components of `a`. So the
products of the components of `axial R`, the vector of `R - Rᵀ`, are multiples of entries of the
symmetric part (`axial_mul_axial`), which gives the axis back unless the trace is `-1`. A rotation
with this trace is a half turn: it is symmetric, and the squares of its entries are products of
diagonal ones (`sq_entry`).
-/

open Matrix

variable {K : Type*} [CommRing K]

/-- The vector of the skew part of a matrix, doubled. -/
def axial (R : Matrix (Fin 3) (Fin 3) K) : Fin 3 → K :=
  ![R 2 1 - R 1 2, R 0 2 - R 2 0, R 1 0 - R 0 1]

theorem hat_axial (R : Matrix (Fin 3) (Fin 3) K) : hat (axial R) = R - Rᵀ := by
  ext i j
  fin_cases i <;> fin_cases j <;> simp [hat, axial]

namespace IsRotation

variable {R : Matrix (Fin 3) (Fin 3) K}

/-- The entries of a rotation are quadratic in the others: the cofactors off the diagonal. -/
theorem entry_eq (h : IsRotation R) :
    R 0 0 = R 1 1 * R 2 2 - R 1 2 * R 2 1 ∧ R 1 1 = R 0 0 * R 2 2 - R 0 2 * R 2 0 ∧
    R 2 2 = R 0 0 * R 1 1 - R 0 1 * R 1 0 ∧ R 0 1 = R 1 2 * R 2 0 - R 1 0 * R 2 2 ∧
    R 1 0 = R 0 2 * R 2 1 - R 0 1 * R 2 2 ∧ R 0 2 = R 1 0 * R 2 1 - R 1 1 * R 2 0 ∧
    R 2 0 = R 0 1 * R 1 2 - R 0 2 * R 1 1 ∧ R 1 2 = R 0 1 * R 2 0 - R 0 0 * R 2 1 ∧
    R 2 1 = R 0 2 * R 1 0 - R 0 0 * R 1 2 := by
  have hcof := h.entry_eq_adjugate
  simp only [adjugate_fin_three] at hcof
  refine ⟨(hcof 0 0).trans ?_, (hcof 1 1).trans ?_, (hcof 2 2).trans ?_, (hcof 0 1).trans ?_,
    (hcof 1 0).trans ?_, (hcof 0 2).trans ?_, (hcof 2 0).trans ?_, (hcof 1 2).trans ?_,
    (hcof 2 1).trans ?_⟩ <;> simp <;> ring

/-- The products of the components of the axis. -/
theorem axial_mul_axial (h : IsRotation R) :
    axial R 0 * axial R 0 = (1 + R.trace) * (2 * R 0 0 + (1 - R.trace)) ∧
    axial R 1 * axial R 1 = (1 + R.trace) * (2 * R 1 1 + (1 - R.trace)) ∧
    axial R 2 * axial R 2 = (1 + R.trace) * (2 * R 2 2 + (1 - R.trace)) ∧
    axial R 0 * axial R 1 = (1 + R.trace) * (R 0 1 + R 1 0) ∧
    axial R 0 * axial R 2 = (1 + R.trace) * (R 0 2 + R 2 0) ∧
    axial R 1 * axial R 2 = (1 + R.trace) * (R 1 2 + R 2 1) := by
  obtain ⟨h00, h11, h22, h01, h10, h02, h20, h12, h21⟩ := h.entry_eq
  have hrow : ∀ i, R i 0 * R i 0 + R i 1 * R i 1 + R i 2 * R i 2 = 1 := fun i ↦
    (h.row_mul_row i i).trans (one_apply_eq i)
  have hcol : ∀ i, R 0 i * R 0 i + R 1 i * R 1 i + R 2 i * R 2 i = 1 := fun i ↦
    (h.column_mul_column i i).trans (one_apply_eq i)
  have hrow' : ∀ i j, i ≠ j → R i 0 * R j 0 + R i 1 * R j 1 + R i 2 * R j 2 = 0 := fun i j hij ↦
    (h.row_mul_row i j).trans (one_apply_ne hij)
  have hcol' : ∀ i j, i ≠ j → R 0 i * R 0 j + R 1 i * R 1 j + R 2 i * R 2 j = 0 := fun i j hij ↦
    (h.column_mul_column i j).trans (one_apply_ne hij)
  rw [trace_fin_three]
  simp only [axial, cons_val_zero, cons_val_one, cons_val]
  -- the squares come from the lengths of two rows and a column, the products from two right angles
  refine ⟨?_, ?_, ?_, ?_, ?_, ?_⟩
  · linear_combination hrow 1 + hrow 2 - hcol 0 - 2 * h00
  · linear_combination hrow 0 + hrow 2 - hcol 1 - 2 * h11
  · linear_combination hrow 0 + hrow 1 - hcol 2 - 2 * h22
  · linear_combination -h01 - h10 - hcol' 0 1 (by decide) - hrow' 0 1 (by decide)
  · linear_combination -h02 - h20 - hcol' 0 2 (by decide) - hrow' 0 2 (by decide)
  · linear_combination -h12 - h21 - hcol' 1 2 (by decide) - hrow' 1 2 (by decide)

/-- The squared length of the axis. -/
theorem axial_dotProduct_axial (h : IsRotation R) :
    axial R ⬝ᵥ axial R = (3 - R.trace) * (1 + R.trace) := by
  obtain ⟨h0, h1, h2, -⟩ := h.axial_mul_axial
  rw [dotProduct, Fin.sum_univ_three, h0, h1, h2, trace_fin_three]
  ring

section Ordered

variable {F : Type*} [Field F] [LinearOrder F] [IsStrictOrderedRing F]
  {R : Matrix (Fin 3) (Fin 3) F}

/-- The trace of a rotation is the double of a cosine, and one more. -/
theorem trace_mem (h : IsRotation R) : -1 ≤ R.trace ∧ R.trace ≤ 3 := by
  have hpos : 0 ≤ (3 - R.trace) * (1 + R.trace) := by
    rw [← h.axial_dotProduct_axial, dotProduct, Fin.sum_univ_three]
    exact add_nonneg (add_nonneg (mul_self_nonneg _) (mul_self_nonneg _)) (mul_self_nonneg _)
  constructor <;> nlinarith

/-- A diagonal entry is at least `-1`. -/
theorem neg_one_le_diagonal (h : IsRotation R) (i : Fin 3) : -1 ≤ R i i := by
  have hrow := (h.row_mul_row i i).trans (one_apply_eq i)
  have hle : R i i * R i i ≤ 1 := by
    fin_cases i <;> simp at hrow ⊢ <;> nlinarith
  nlinarith

theorem entry_comm (h : IsRotation R) (htrace : R.trace = -1) (i j : Fin 3) : R i j = R j i := by
  have hzero : axial R = 0 := by
    have hdot := h.axial_dotProduct_axial
    rw [htrace, add_neg_cancel, mul_zero] at hdot
    exact dotProduct_self_eq_zero.1 hdot
  have hsymm : R - Rᵀ = 0 := by rw [← hat_axial, hzero, hat_zero]
  exact sub_eq_zero.1 (congrFun (congrFun hsymm i) j)

/-- The entries of a half turn, up to their signs. -/
theorem sq_entry (h : IsRotation R) (htrace : R.trace = -1) {i j : Fin 3} (hij : i ≠ j) :
    R i j ^ 2 = (1 + R i i) * (1 + R j j) := by
  have hcomm := h.entry_comm htrace
  obtain ⟨h00, h11, h22, -⟩ := h.entry_eq
  rw [hcomm 2 1] at h00
  rw [hcomm 2 0] at h11
  rw [hcomm 1 0] at h22
  rw [trace_fin_three] at htrace
  have h01 : R 0 1 ^ 2 = (1 + R 0 0) * (1 + R 1 1) := by linear_combination h22 - htrace
  have h02 : R 0 2 ^ 2 = (1 + R 0 0) * (1 + R 2 2) := by linear_combination h11 - htrace
  have h12 : R 1 2 ^ 2 = (1 + R 1 1) * (1 + R 2 2) := by linear_combination h00 - htrace
  have hswap : ∀ {i j}, R i j ^ 2 = (1 + R i i) * (1 + R j j) →
      R j i ^ 2 = (1 + R j j) * (1 + R i i) := fun hsq ↦ by
    rw [hcomm, hsq, mul_comm]
  fin_cases i <;> fin_cases j
  exacts [absurd rfl hij, h01, h02, hswap h01, absurd rfl hij, h12, hswap h02, hswap h12,
    absurd rfl hij]

end Ordered

end IsRotation
