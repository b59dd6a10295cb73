import Mathlib.LinearAlgebra.Matrix.Rank

/-!
# Damped inverses

A matrix of full rank has an invertible product with its transpose, and a positive multiple of the
identity makes the product invertible for any matrix. The damped inverse has the same two forms as
the pseudo-inverse (`dampedInverse_eq`). Two scalings of the columns that are inverse to each other
have the same damped inverse exactly where a matrix equation without inverses holds
(`dampedInverse_scaled_eq_iff`).
-/

namespace Matrix

variable {ι κ K : Type*} [Fintype ι] [DecidableEq ι] [Fintype κ] [Field K]

theorem isUnit_of_rank_eq_card {A : Matrix ι ι K} (h : A.rank = Fintype.card ι) : IsUnit A := by
  have hrange : LinearMap.range A.mulVecLin = ⊤ := by
    refine Submodule.eq_top_of_finrank_eq ?_
    rw [Module.finrank_fintype_fun_eq_card, ← h, rank]
  exact mulVec_surjective_iff_isUnit.1 (LinearMap.range_eq_top.1 hrange)

/-- An inverse on the left and one on the right are cleared. -/
theorem inv_mul_eq_mul_inv_iff [DecidableEq κ] {Q : Matrix κ κ K} {P : Matrix ι ι K}
    (hQ : IsUnit Q) (hP : IsUnit P) (X Y : Matrix κ ι K) :
    Q⁻¹ * X = Y * P⁻¹ ↔ X * P = Q * Y := by
  have hQ' := (isUnit_iff_isUnit_det _).1 hQ
  have hP' := (isUnit_iff_isUnit_det _).1 hP
  constructor
  · intro h
    calc X * P = Q * (Q⁻¹ * X) * P := by rw [mul_nonsing_inv_cancel_left _ _ hQ']
      _ = Q * Y := by rw [h, Matrix.mul_assoc, nonsing_inv_mul_cancel_right _ _ hP']
  · intro h
    calc Q⁻¹ * X = Q⁻¹ * (X * P * P⁻¹) := by rw [mul_nonsing_inv_cancel_right _ _ hP']
      _ = Y * P⁻¹ := by rw [h, Matrix.mul_assoc, nonsing_inv_mul_cancel_left _ _ hQ']

section Ordered

variable [LinearOrder K] [IsStrictOrderedRing K] {k : K}

/-- The product of a matrix with independent rows and its transpose is invertible. -/
theorem isUnit_mul_transpose {A : Matrix ι κ K} (h : A.rank = Fintype.card ι) :
    IsUnit (A * Aᵀ) :=
  isUnit_of_rank_eq_card (by rw [rank_self_mul_transpose, h])

omit [DecidableEq ι] in
theorem dotProduct_self_nonneg (v : ι → K) : 0 ≤ v ⬝ᵥ v :=
  Finset.sum_nonneg fun i _ ↦ mul_self_nonneg (v i)

variable (A : Matrix ι κ K)

/-- Damping makes the product invertible. -/
theorem isUnit_damped (hk : 0 < k) : IsUnit (A * Aᵀ + k • 1) := by
  refine mulVec_injective_iff_isUnit.1 fun x y hxy ↦ sub_eq_zero.1 ?_
  have hzero : (A * Aᵀ + k • 1) *ᵥ (x - y) = 0 := by
    rw [mulVec_sub]
    exact sub_eq_zero.2 hxy
  generalize x - y = z at hzero ⊢
  -- the quadratic form of the damped product is a sum of squares
  have hsum : (Aᵀ *ᵥ z) ⬝ᵥ (Aᵀ *ᵥ z) + k * (z ⬝ᵥ z) = 0 := by
    have hdot := congrArg (z ⬝ᵥ ·) hzero
    simp only [add_mulVec, smul_mulVec, one_mulVec, dotProduct_add, dotProduct_smul,
      dotProduct_zero, smul_eq_mul, ← mulVec_mulVec] at hdot
    rwa [dotProduct_mulVec, ← mulVec_transpose] at hdot
  have hle : k * (z ⬝ᵥ z) ≤ 0 := by linarith only [hsum, dotProduct_self_nonneg (Aᵀ *ᵥ z)]
  exact dotProduct_self_eq_zero.1
    (le_antisymm (nonpos_of_mul_nonpos_right hle hk) (dotProduct_self_nonneg z))

/-- The damped inverse of a matrix. -/
noncomputable def dampedInverse (A : Matrix ι κ K) (k : K) : Matrix κ ι K :=
  Aᵀ * (A * Aᵀ + k • 1)⁻¹

variable [DecidableEq κ]

/-- The product is damped on either side. -/
theorem dampedInverse_eq (hk : 0 < k) : dampedInverse A k = (Aᵀ * A + k • 1)⁻¹ * Aᵀ := by
  have hQ := isUnit_damped Aᵀ hk
  rw [transpose_transpose] at hQ
  refine ((inv_mul_eq_mul_inv_iff hQ (isUnit_damped A hk) Aᵀ Aᵀ).2 ?_).symm
  rw [Matrix.mul_add, Matrix.add_mul, Matrix.mul_assoc, Matrix.mul_smul, Matrix.smul_mul,
    Matrix.mul_one, Matrix.one_mul]

/-- Dividing and multiplying the columns by the same factors agree exactly where this equation
holds. -/
theorem dampedInverse_scaled_eq_iff {D E : Matrix κ κ K} (hD : Dᵀ = D) (hE : Eᵀ = E)
    (hDE : D * E = 1) (hk : 0 < k) :
    dampedInverse (A * E) k = dampedInverse (A * D) k ↔
      Aᵀ * A * (D * D - 1) * Aᵀ = k • ((D * D - 1) * Aᵀ) := by
  have hED : E * D = 1 := mul_eq_one_comm.1 hDE
  have hQ := isUnit_damped (A * E)ᵀ hk
  rw [transpose_transpose] at hQ
  rw [dampedInverse_eq _ hk, dampedInverse,
    inv_mul_eq_mul_inv_iff hQ (isUnit_damped (A * D) hk), transpose_mul, transpose_mul, hD, hE]
  have hleft : D * (E * Aᵀ * (A * D * (D * Aᵀ) + k • 1)) = Aᵀ * A * (D * D) * Aᵀ + k • Aᵀ := by
    simp only [Matrix.mul_add, Matrix.mul_smul, Matrix.mul_one, ← Matrix.mul_assoc, hDE,
      Matrix.one_mul]
  have hright : D * ((E * Aᵀ * (A * E) + k • 1) * (D * Aᵀ)) = Aᵀ * A * Aᵀ + k • (D * D * Aᵀ) := by
    simp only [Matrix.mul_add, Matrix.add_mul, Matrix.mul_smul, Matrix.smul_mul, Matrix.one_mul,
      ← Matrix.mul_assoc, hDE]
    rw [Matrix.mul_assoc _ E D, hED, Matrix.mul_one]
  have hcancel : ∀ X Y : Matrix κ ι K, D * X = D * Y ↔ X = Y := fun X Y ↦ by
    refine ⟨fun h ↦ ?_, fun h ↦ h ▸ rfl⟩
    rw [← Matrix.one_mul X, ← Matrix.one_mul Y, ← hED, Matrix.mul_assoc, h, Matrix.mul_assoc]
  rw [← hcancel, hleft, hright, Matrix.mul_sub, Matrix.sub_mul, Matrix.sub_mul, Matrix.mul_one,
    Matrix.one_mul, smul_sub, sub_eq_sub_iff_add_eq_add, add_comm (k • (D * D * Aᵀ))]

end Ordered

end Matrix
