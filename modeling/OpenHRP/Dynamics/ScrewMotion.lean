import OpenHRP.Dynamics.RungeKutta
import OpenHRP.Kinematics.Rodrigues
import OpenHRP.Model.RealMath

/-!
# Screw motions

`SE3exp` moves a pose with a constant spatial velocity. About the axis of a turn the pose rotates,
and it slides along the axis; without a turn it only slides. Rotations about one axis add their
angles (`rodrigues_add`), so that the motion for one time and then for another one is the motion for
the sum of the times (`SE3exp_add`).
-/

open Matrix

namespace OpenHRP

/-- Rotations about an axis of length one add their angles. -/
theorem rodrigues_add {a : Vector3 ℝ} (ha : a ⬝ᵥ a = 1) (p q : ℝ) :
    rodrigues a (p + q) = rodrigues a q * rodrigues a p := by
  have hcube : hat a * (hat a * hat a) = -hat a := by
    rw [hat_mul_hat_mul_hat, ha, neg_smul, one_smul]
  have hcube' : hat a * hat a * hat a = -hat a := by rw [Matrix.mul_assoc, hcube]
  have hfour : hat a * hat a * (hat a * hat a) = -(hat a * hat a) := by
    rw [Matrix.mul_assoc, hcube, mul_neg]
  have hsin : CMath.sin (p + q) = Real.sin p * Real.cos q + Real.cos p * Real.sin q :=
    Real.sin_add p q
  have hcos : CMath.cos (p + q) = Real.cos p * Real.cos q - Real.sin p * Real.sin q :=
    Real.cos_add p q
  rw [rodrigues_eq, rodrigues_eq, rodrigues_eq, hsin, hcos]
  show _ = (1 + Real.sin q • hat a + (1 - Real.cos q) • (hat a * hat a)) *
    (1 + Real.sin p • hat a + (1 - Real.cos p) • (hat a * hat a))
  simp only [add_mul, mul_add, smul_mul_assoc, mul_smul_comm, one_mul, mul_one, hcube, hcube',
    hfour]
  module

namespace ForwardDynamicsABM

variable {w vo p0 : Vector3 ℝ} {R0 : Matrix33 ℝ}

theorem epsilon_pos : (0 : ℝ) < epsilon := by
  rw [epsilon]
  positivity

/-- The axis of a turn has length one. -/
theorem axis_dotProduct_self (hw : ¬CMath.sqrt (w ⬝ᵥ w) < (epsilon : ℝ)) :
    ((CMath.sqrt (w ⬝ᵥ w))⁻¹ • w) ⬝ᵥ ((CMath.sqrt (w ⬝ᵥ w))⁻¹ • w) = 1 := by
  have hpos : 0 < √(w ⬝ᵥ w) := epsilon_pos.trans_le (not_lt.1 hw)
  have hsq : √(w ⬝ᵥ w) * √(w ⬝ᵥ w) = w ⬝ᵥ w :=
    Real.mul_self_sqrt (Real.sqrt_pos.1 hpos).le
  show ((√(w ⬝ᵥ w))⁻¹ • w) ⬝ᵥ ((√(w ⬝ᵥ w))⁻¹ • w) = 1
  rw [smul_dotProduct, dotProduct_smul, smul_smul, smul_eq_mul, ← mul_inv, hsq,
    inv_mul_cancel₀ (Real.sqrt_pos.1 hpos).ne']

/-- A rotation keeps what lies along its axis. -/
theorem rodrigues_mulVec_vecMulVec (a v : Vector3 ℝ) (q : ℝ) :
    rodrigues a q *ᵥ (vecMulVec a a *ᵥ v) = vecMulVec a a *ᵥ v := by
  rw [vecMulVec_mulVec, mulVec_smul, rodrigues_mulVec_axis]

/-- The motions with a constant spatial velocity are a one-parameter flow of rigid motions. -/
theorem SE3exp_add (p0 : Vector3 ℝ) (R0 : Matrix33 ℝ) (w vo : Vector3 ℝ) (dt1 dt2 : ℝ) :
    SE3exp (SE3exp p0 R0 w vo dt1).1 (SE3exp p0 R0 w vo dt1).2 w vo dt2 =
        SE3exp p0 R0 w vo (dt1 + dt2) ∧
      (R0ᵀ * R0 = 1 → (SE3exp p0 R0 w vo dt1).2ᵀ * (SE3exp p0 R0 w vo dt1).2 = 1) := by
  by_cases hw : CMath.sqrt (w ⬝ᵥ w) < (epsilon : ℝ)
  · simp only [SE3exp, if_pos hw]
    exact ⟨by rw [add_assoc, ← add_smul], id⟩
  · have hunit := axis_dotProduct_self hw
    simp only [SE3exp, if_neg hw]
    generalize CMath.sqrt (w ⬝ᵥ w) = norm_w at hunit ⊢
    generalize norm_w⁻¹ • w = w_n at hunit ⊢
    generalize norm_w⁻¹ • vo = vo_n
    have hkeep := rodrigues_mulVec_vecMulVec w_n vo_n (norm_w * dt2)
    refine ⟨?_, fun hR ↦ ?_⟩
    · rw [mul_add, rodrigues_add hunit]
      refine Prod.ext ?_ (Matrix.mul_assoc _ _ _).symm
      generalize vecMulVec w_n w_n *ᵥ vo_n = slide at hkeep ⊢
      simp only [mulVec_add, mulVec_sub, sub_mulVec, one_mulVec, mulVec_smul, hkeep,
        ← mulVec_mulVec]
      module
    · have hrot := (isRotation_rodrigues (q := norm_w * dt1) hunit
        (Real.sin_sq_add_cos_sq _)).transpose_mul_self
      rw [transpose_mul, Matrix.mul_assoc, ← Matrix.mul_assoc _ (rodrigues _ _), hrot, one_mul, hR]

/-- A quarter of a turn about the third axis. -/
theorem SE3exp_add_quarter :
    SE3exp (SE3exp 0 1 ![0, 0, 1] ![1, 0, 0] (Real.pi / 2)).1
        (SE3exp 0 1 ![0, 0, 1] ![1, 0, 0] (Real.pi / 2)).2 ![0, 0, 1] ![1, 0, 0] (Real.pi / 2) =
        SE3exp 0 1 ![0, 0, 1] ![1, 0, 0] (Real.pi / 2 + Real.pi / 2) ∧
      (SE3exp 0 1 ![0, 0, 1] ![1, 0, 0] (Real.pi / 2)).2ᵀ *
        (SE3exp 0 1 ![0, 0, 1] ![1, 0, 0] (Real.pi / 2)).2 = 1 := by
  obtain ⟨hflow, horthogonal⟩ :=
    SE3exp_add 0 1 ![0, 0, 1] ![1, 0, 0] (Real.pi / 2) (Real.pi / 2)
  exact ⟨hflow, horthogonal (by rw [transpose_one, one_mul])⟩

end ForwardDynamicsABM

end OpenHRP
