import OpenHRP.Foundations.Rotation
import OpenHRP.Model.Link

/-!
# Rodrigues' formula gives rotations

`rodrigues` computes with the components of an axis. About an axis of length one, and with a sine
and a cosine whose squares add up to one, it gives a rotation; and the rotation about a rotated axis
is the conjugate of the rotation about the axis.
-/

open Matrix

namespace OpenHRP

variable {K : Type*} [CommRing K] [CMath K]

theorem det_rodrigues (a : Vector3 K) (q : K) :
    (rodrigues a q).det =
      (1 - (1 - CMath.cos q) * (a ⬝ᵥ a)) ^ 2 + CMath.sin q ^ 2 * (a ⬝ᵥ a) := by
  simp [det_fin_three, rodrigues, calcRodrigues, dotProduct, Fin.sum_univ_three]
  ring

omit [CMath K] in
/-- The cube of a cross-product matrix is a multiple of it. -/
theorem hat_mul_hat_mul_hat (a : Vector3 K) : hat a * (hat a * hat a) = -(a ⬝ᵥ a) • hat a := by
  refine ext_of_mulVec_single fun i ↦ ?_
  simp only [← mulVec_mulVec, smul_mulVec, hat_mulVec]
  rw [cross_cross_eq_smul_sub_smul']
  simp [dot_self_cross]

theorem rodrigues_transpose (a : Vector3 K) (q : K) :
    (rodrigues a q)ᵀ = 1 - CMath.sin q • hat a + (1 - CMath.cos q) • (hat a * hat a) := by
  rw [rodrigues_eq, transpose_add, transpose_add, transpose_one, transpose_smul, transpose_smul,
    transpose_mul, hat_transpose, neg_mul_neg, smul_neg, ← sub_eq_add_neg]

/-- The rotation about an axis of length one is a rotation. -/
theorem isRotation_rodrigues {a : Vector3 K} {q : K} (ha : a ⬝ᵥ a = 1)
    (hq : CMath.sin q ^ 2 + CMath.cos q ^ 2 = 1) : IsRotation (rodrigues a q) := by
  refine ⟨?_, ?_⟩
  · have hcube : hat a * (hat a * hat a) = -hat a := by
      rw [hat_mul_hat_mul_hat, ha, neg_smul, one_smul]
    have hfour : hat a * hat a * (hat a * hat a) = -(hat a * hat a) := by
      rw [Matrix.mul_assoc, hcube, mul_neg]
    have hcube' : hat a * hat a * hat a = -hat a := by rw [Matrix.mul_assoc, hcube]
    rw [rodrigues_transpose, rodrigues_eq]
    simp only [add_mul, sub_mul, mul_add, smul_mul_assoc, mul_smul_comm, one_mul, mul_one, hcube,
      hcube', hfour, smul_neg]
    generalize hat a * hat a = H₂
    have hcoef : 2 * (1 - CMath.cos q) - CMath.sin q ^ 2 - (1 - CMath.cos q) ^ 2 = (0 : K) := by
      linear_combination -hq
    calc _ = 1 + (2 * (1 - CMath.cos q) - CMath.sin q ^ 2 - (1 - CMath.cos q) ^ 2) • H₂ := by
          module
      _ = 1 := by rw [hcoef, zero_smul, add_zero]
  · rw [det_rodrigues, ha]
    linear_combination hq

/-- The rotation about a rotated axis. -/
theorem rodrigues_conj {R : Matrix33 K} (h : IsRotation R) (a : Vector3 K) (q : K) :
    rodrigues (R *ᵥ a) q = R * rodrigues a q * Rᵀ := by
  have hsq : R * hat a * Rᵀ * (R * hat a * Rᵀ) = R * (hat a * hat a) * Rᵀ := by
    calc R * hat a * Rᵀ * (R * hat a * Rᵀ) = R * hat a * (Rᵀ * R) * hat a * Rᵀ := by
          simp only [Matrix.mul_assoc]
      _ = R * (hat a * hat a) * Rᵀ := by
          rw [h.transpose_mul_self, mul_one, Matrix.mul_assoc R]
  rw [rodrigues_eq, rodrigues_eq, h.hat_conj, hsq, mul_add, mul_add, add_mul, add_mul, mul_one,
    h.mul_transpose, mul_smul_comm, mul_smul_comm, smul_mul_assoc, smul_mul_assoc]

end OpenHRP
