import OpenHRP.Foundations.RotationAxis
import OpenHRP.Kinematics.Rodrigues
import OpenHRP.Model.RealAngle
import OpenHRP.Model.RealMath
import Mathlib.Analysis.SpecialFunctions.Trigonometric.Bounds

/-!
# The logarithm of a rotation

`omegaFromRot` gives the axis of a rotation, as long as its angle. Away from half a turn the skew
part of the matrix is a multiple of the axis, and the rotation about it is the matrix again
(`rodrigues_axial`). Near half a turn only the sizes of the components are computed, from the
diagonal. They make a vector of length `th * √(alpha + 2)`, where `alpha` is the cosine of the angle
`th`: for an angle short of half a turn this is too long (`cos_long_lt`), and for half a turn the
signs are missing.
-/

open Matrix

namespace OpenHRP

section Definition

variable {K : Type*} [Field K] [LinearOrder K] [CMath K] [CAngle K]

/-- `omegaFromRot`, without its messages. -/
def omegaFromRot (r : Matrix33 K) : Vector3 K :=
  let alpha := (r 0 0 + r 1 1 + r 2 2 - 1) / 2
  let alpha := if 1 < alpha then 1 else alpha
  if |alpha - 1| < 1 / 10 ^ 12 then 0
  else
    let th := CAngle.acos alpha
    let s := CMath.sin th
    if s < 1 / 2 ^ 52 then
      ![CMath.sqrt ((r 0 0 + 1) * (1 / 2)) * th, CMath.sqrt ((r 1 1 + 1) * (1 / 2)) * th,
        CMath.sqrt ((r 2 2 + 1) * (1 / 2)) * th]
    else
      let k := -(1 / 2) * th / s
      ![(r 1 2 - r 2 1) * k, (r 2 0 - r 0 2) * k, (r 0 1 - r 1 0) * k]

end Definition

variable {R : Matrix33 ℝ} {th : ℝ}

/-- The cosine of the angle of a rotation. -/
noncomputable def rotationCos (R : Matrix33 ℝ) : ℝ :=
  (R.trace - 1) / 2

theorem rotationCos_mem (h : IsRotation R) : -1 ≤ rotationCos R ∧ rotationCos R ≤ 1 := by
  obtain ⟨hlo, hhi⟩ := h.trace_mem
  rw [rotationCos]
  constructor <;> linarith

/-- A vector whose length is an angle gives a matrix as the rotation by this angle about it. -/
def IsLogOf (w : Vector3 ℝ) (R : Matrix33 ℝ) : Prop :=
  w ≠ 0 ∧ calcRodrigues ((√(w ⬝ᵥ w))⁻¹ • w) √(w ⬝ᵥ w) = R

theorem isLogOf_iff {w : Vector3 ℝ} {q : ℝ} (hq : 0 < q) (hw : w ⬝ᵥ w = q ^ 2) :
    IsLogOf w R ↔ rodrigues (q⁻¹ • w) q = R := by
  have hne : w ≠ 0 := by
    rintro rfl
    rw [zero_dotProduct] at hw
    exact absurd hw.symm (pow_pos hq 2).ne'
  rw [IsLogOf, hw, Real.sqrt_sq hq.le]
  exact and_iff_right hne

/-! ### Away from half a turn -/

/-- The rotation about the axis of a rotation, by its angle. -/
theorem rodrigues_axial (h : IsRotation R) (hcos : Real.cos th = rotationCos R)
    (hsin : Real.sin th ≠ 0) : rodrigues ((1 / 2 / Real.sin th) • axial R) th = R := by
  obtain ⟨h00, h11, h22, h01, h02, h12⟩ := h.axial_mul_axial
  have htrace : R.trace = 1 + 2 * Real.cos th := by
    rw [hcos, rotationCos]
    ring
  rw [htrace] at h00 h11 h22 h01 h02 h12
  set c := Real.cos th with hc
  set s := Real.sin th with hs
  have hdiag := htrace
  rw [trace_fin_three] at hdiag
  -- the factors that the products of the components are multiplied by
  have hk : (1 / 2 / s) * (1 / 2 / s) * (1 - c) * (4 * (1 + c)) = 1 := by
    have hsq : s ^ 2 + c ^ 2 = 1 := Real.sin_sq_add_cos_sq th
    field_simp
    linear_combination -4 * hsq
  have hlin : 1 / 2 / s * s = 1 / 2 := div_mul_cancel₀ _ hsin
  generalize 1 / 2 / s = k at hk hlin
  have hax : ∀ i, (k • axial R) i = k * axial R i := fun i ↦ rfl
  have h0 : axial R 0 = R 2 1 - R 1 2 := rfl
  have h1 : axial R 1 = R 0 2 - R 2 0 := rfl
  have h2 : axial R 2 = R 1 0 - R 0 1 := rfl
  have hsin' : CMath.sin th = s := rfl
  have hcos' : CMath.cos th = c := rfl
  ext i j
  fin_cases i <;> fin_cases j <;>
    simp [rodrigues, calcRodrigues, hsin', hcos', -smul_eq_mul, hax]
  · linear_combination -(k * k * (1 - c)) * (h11 + h22) - (R 1 1 + R 2 2 - 2 * c) * hk - hdiag
  · linear_combination k * k * (1 - c) * h01 + (R 0 1 + R 1 0) / 2 * hk - axial R 2 * hlin - h2 / 2
  · linear_combination k * k * (1 - c) * h02 + (R 0 2 + R 2 0) / 2 * hk + axial R 1 * hlin + h1 / 2
  · linear_combination k * k * (1 - c) * h01 + (R 0 1 + R 1 0) / 2 * hk + axial R 2 * hlin + h2 / 2
  · linear_combination -(k * k * (1 - c)) * (h00 + h22) - (R 0 0 + R 2 2 - 2 * c) * hk - hdiag
  · linear_combination k * k * (1 - c) * h12 + (R 1 2 + R 2 1) / 2 * hk - axial R 0 * hlin - h0 / 2
  · linear_combination k * k * (1 - c) * h02 + (R 0 2 + R 2 0) / 2 * hk - axial R 1 * hlin - h1 / 2
  · linear_combination k * k * (1 - c) * h12 + (R 1 2 + R 2 1) / 2 * hk + axial R 0 * hlin + h0 / 2
  · linear_combination -(k * k * (1 - c)) * (h00 + h11) - (R 0 0 + R 1 1 - 2 * c) * hk - hdiag

/-- The angle of a rotation. -/
noncomputable def rotationAngle (R : Matrix33 ℝ) : ℝ :=
  Real.arccos (rotationCos R)

theorem cos_rotationAngle (h : IsRotation R) : Real.cos (rotationAngle R) = rotationCos R :=
  Real.cos_arccos (rotationCos_mem h).1 (rotationCos_mem h).2

/-- The two branches, for a rotation that is not too close to none. -/
theorem omegaFromRot_eq (h : IsRotation R) (hfar : 1 / 10 ^ 12 ≤ |rotationCos R - 1|) :
    omegaFromRot R =
      if Real.sin (rotationAngle R) < 1 / 2 ^ 52 then
        rotationAngle R • ![√((R 0 0 + 1) * (1 / 2)), √((R 1 1 + 1) * (1 / 2)),
          √((R 2 2 + 1) * (1 / 2))]
      else rotationAngle R • ((1 / 2 / Real.sin (rotationAngle R)) • axial R) := by
  have halpha : (R 0 0 + R 1 1 + R 2 2 - 1) / 2 = rotationCos R := by
    rw [rotationCos, trace_fin_three]
  have hle := not_lt.2 (rotationCos_mem h).2
  rw [omegaFromRot, halpha]
  dsimp only
  rw [if_neg hle, if_neg (not_lt.2 hfar)]
  change (if Real.sin (rotationAngle R) < 1 / 2 ^ 52 then
    ![√((R 0 0 + 1) * (1 / 2)) * rotationAngle R, √((R 1 1 + 1) * (1 / 2)) * rotationAngle R,
      √((R 2 2 + 1) * (1 / 2)) * rotationAngle R]
    else
      let k := -(1 / 2) * rotationAngle R / Real.sin (rotationAngle R)
      ![(R 1 2 - R 2 1) * k, (R 2 0 - R 0 2) * k, (R 0 1 - R 1 0) * k]) = _
  split
  · ext i
    fin_cases i <;> simp [mul_comm]
  · ext i
    fin_cases i <;> simp [axial] <;> ring

theorem rotationAngle_pos (hfar : 1 / 10 ^ 12 ≤ |rotationCos R - 1|) (h : IsRotation R) :
    0 < rotationAngle R := by
  refine Real.arccos_pos.2 ((rotationCos_mem h).2.lt_of_ne fun heq ↦ ?_)
  rw [heq, sub_self, abs_zero] at hfar
  norm_num at hfar

/-- With a sine, the vector is the axis. -/
theorem isLogOf_of_sin (h : IsRotation R) (hfar : 1 / 10 ^ 12 ≤ |rotationCos R - 1|)
    (hsin : ¬ Real.sin (rotationAngle R) < 1 / 2 ^ 52) : IsLogOf (omegaFromRot R) R := by
  have hpos := rotationAngle_pos hfar h
  have hsne : Real.sin (rotationAngle R) ≠ 0 := by
    intro hzero
    rw [hzero] at hsin
    norm_num at hsin
  have hcos := cos_rotationAngle h
  have haxis := rodrigues_axial h hcos hsne
  rw [omegaFromRot_eq h hfar, if_neg hsin]
  generalize rotationAngle R = th at *
  rw [isLogOf_iff hpos, inv_smul_smul₀ hpos.ne', haxis]
  -- the length of the axis is twice the sine
  have hlen : axial R ⬝ᵥ axial R = (2 * Real.sin th) ^ 2 := by
    have htrace : R.trace = 1 + 2 * Real.cos th := by
      rw [hcos, rotationCos]
      ring
    have hsq := Real.sin_sq_add_cos_sq th
    rw [h.axial_dotProduct_axial, htrace]
    linear_combination -4 * hsq
  rw [smul_dotProduct, dotProduct_smul, smul_dotProduct, dotProduct_smul, hlen]
  simp only [smul_eq_mul]
  field_simp

/-! ### Near half a turn -/

/-- An angle short of half a turn, made longer by the root of its cosine and two, has a smaller
cosine. -/
theorem cos_long_lt (hpos : 0 < th) (hlt : th < Real.pi) :
    Real.cos (th * √(Real.cos th + 2)) < Real.cos th := by
  have hneg : -1 < Real.cos th := by
    rw [← Real.cos_pi]
    exact Real.cos_lt_cos_of_nonneg_of_le_pi hpos.le le_rfl hlt
  have hlong : th < th * √(Real.cos th + 2) := by
    refine lt_mul_of_one_lt_right hpos ((Real.lt_sqrt zero_le_one).2 ?_)
    linarith
  -- and it stays short of the angle on the other side of half a turn
  have hshort : th * √(Real.cos th + 2) < 2 * Real.pi - th := by
    have hroot : √(Real.cos th + 2) ≤ (Real.cos th + 3) / 2 := by
      refine Real.sqrt_le_iff.2 ⟨by linarith, ?_⟩
      nlinarith [sq_nonneg (Real.cos th + 1)]
    have hcos : Real.cos th ≤ (Real.pi - th) ^ 2 / 2 - 1 := by
      have h : 1 - (Real.pi - th) ^ 2 / 2 ≤ Real.cos (Real.pi - th) :=
        Real.one_sub_sq_div_two_le_cos
      rw [Real.cos_pi_sub] at h
      linarith
    have hle : th * √(Real.cos th + 2) ≤ th * (((Real.pi - th) ^ 2 / 2 - 1 + 3) / 2) :=
      mul_le_mul_of_nonneg_left (hroot.trans (by linarith)) hpos.le
    have hpi := Real.pi_le_four
    have hrest : 0 < Real.pi - th := sub_pos.2 hlt
    have hprod : (Real.pi - th) * th ≤ 4 := by
      nlinarith [sq_nonneg (Real.pi - 2 * th), Real.pi_pos]
    nlinarith [mul_le_mul_of_nonneg_left hprod hrest.le]
  rcases le_or_gt (th * √(Real.cos th + 2)) Real.pi with hle | hgt
  · exact Real.cos_lt_cos_of_nonneg_of_le_pi hpos.le hle hlong
  · rw [← Real.cos_two_pi_sub (th * √(Real.cos th + 2))]
    exact Real.cos_lt_cos_of_nonneg_of_le_pi hpos.le (by linarith) (by linarith)

/-- The sizes of the components of the axis of a half turn. -/
noncomputable def sizes (R : Matrix33 ℝ) : Vector3 ℝ :=
  ![√((R 0 0 + 1) * (1 / 2)), √((R 1 1 + 1) * (1 / 2)), √((R 2 2 + 1) * (1 / 2))]

theorem sizes_mul_self (h : IsRotation R) (i : Fin 3) :
    sizes R i * sizes R i = (R i i + 1) / 2 := by
  have hpos : 0 ≤ (R i i + 1) * (1 / 2) := by linarith [h.neg_one_le_diagonal i]
  have hsq : √((R i i + 1) * (1 / 2)) * √((R i i + 1) * (1 / 2)) = (R i i + 1) / 2 := by
    rw [Real.mul_self_sqrt hpos]
    ring
  fin_cases i <;> exact hsq

theorem sizes_dotProduct_sizes (h : IsRotation R) : sizes R ⬝ᵥ sizes R = rotationCos R + 2 := by
  rw [dotProduct, Fin.sum_univ_three, sizes_mul_self h, sizes_mul_self h, sizes_mul_self h,
    rotationCos, trace_fin_three]
  ring

theorem sizes_nonneg (R : Matrix33 ℝ) (i : Fin 3) : 0 ≤ sizes R i := by
  fin_cases i <;> exact Real.sqrt_nonneg _

/-- The products of the sizes are the sizes of the entries. -/
theorem two_mul_sizes (h : IsRotation R) {i j : Fin 3}
    (hsq : R i j ^ 2 = (1 + R i i) * (1 + R j j)) : sizes R i * sizes R j * 2 = |R i j| := by
  have hi := sizes_mul_self h i
  have hj := sizes_mul_self h j
  refine (sq_eq_sq₀ (mul_nonneg (mul_nonneg (sizes_nonneg R i) (sizes_nonneg R j)) zero_le_two)
    (abs_nonneg _)).1 ?_
  rw [sq_abs, hsq]
  linear_combination 4 * sizes R j * sizes R j * hi + 2 * (R i i + 1) * hj

/-- The trace of a rotation about an axis of length one. -/
theorem trace_rodrigues {a : Vector3 ℝ} (ha : a ⬝ᵥ a = 1) (q : ℝ) :
    (rodrigues a q).trace = 1 + 2 * Real.cos q := by
  rw [dotProduct, Fin.sum_univ_three] at ha
  have hcos : CMath.cos q = Real.cos q := rfl
  rw [trace_fin_three]
  simp [rodrigues, calcRodrigues, hcos]
  linear_combination -2 * (1 - Real.cos q) * ha

theorem rodrigues_half {a : Vector3 ℝ} (ha : a ⬝ᵥ a = 1) (i j : Fin 3) :
    rodrigues a Real.pi i j = a i * a j * 2 - (1 : Matrix33 ℝ) i j := by
  rw [dotProduct, Fin.sum_univ_three] at ha
  have hsin : CMath.sin Real.pi = 0 := Real.sin_pi
  have hcos : CMath.cos Real.pi = -1 := Real.cos_pi
  fin_cases i <;> fin_cases j <;>
    simp [rodrigues, calcRodrigues, hsin, hcos, one_add_one_eq_two, mul_comm] <;> linarith

/-- A half turn is the rotation about the sizes of its axis exactly when its axis has no components
of opposite signs. -/
theorem rodrigues_sizes_iff (h : IsRotation R) (hcos : rotationCos R = -1) :
    rodrigues (sizes R) Real.pi = R ↔ ∀ i j, i ≠ j → 0 ≤ R i j := by
  have htrace : R.trace = -1 := by
    rw [rotationCos] at hcos
    linarith
  have hunit : sizes R ⬝ᵥ sizes R = 1 := by
    rw [sizes_dotProduct_sizes h, hcos]
    norm_num
  have hoff : ∀ i j, i ≠ j → rodrigues (sizes R) Real.pi i j = |R i j| := fun i j hij ↦ by
    rw [rodrigues_half hunit, one_apply_ne hij, sub_zero, two_mul_sizes h (h.sq_entry htrace hij)]
  constructor
  · intro hR i j hij
    rw [← hR, hoff i j hij]
    exact abs_nonneg _
  · intro hpos
    ext i j
    rcases eq_or_ne i j with rfl | hij
    · rw [rodrigues_half hunit, one_apply_eq, sizes_mul_self h]
      ring
    · rw [hoff i j hij, abs_of_nonneg (hpos i j hij)]

/-- The vector of the sizes gives the rotation back only for a half turn with such an axis. -/
theorem isLogOf_sizes_iff (h : IsRotation R) (hpos : 0 < rotationAngle R) :
    IsLogOf (rotationAngle R • sizes R) R ↔
      rotationCos R = -1 ∧ ∀ i j, i ≠ j → 0 ≤ R i j := by
  have hangle := cos_rotationAngle h
  rcases (rotationCos_mem h).1.eq_or_lt with hhalf | hshort
  · have hpi : rotationAngle R = Real.pi := by
      rw [rotationAngle, ← hhalf, Real.arccos_neg_one]
    rw [hpi, isLogOf_iff Real.pi_pos, inv_smul_smul₀ Real.pi_pos.ne',
      rodrigues_sizes_iff h hhalf.symm, and_iff_right hhalf.symm]
    rw [smul_dotProduct, dotProduct_smul, sizes_dotProduct_sizes h, ← hhalf, smul_eq_mul,
      smul_eq_mul]
    ring
  · refine iff_of_false ?_ fun hc ↦ hshort.ne' hc.1
    have hlt : rotationAngle R < Real.pi := Real.arccos_lt_pi.2 hshort
    have hcos := cos_long_lt hpos hlt
    rw [hangle] at hcos
    generalize rotationAngle R = th at *
    have hroot : 0 < √(rotationCos R + 2) := Real.sqrt_pos.2 (by linarith)
    have hlen : 0 < th * √(rotationCos R + 2) := mul_pos hpos hroot
    have hdot : (th • sizes R) ⬝ᵥ (th • sizes R) = (th * √(rotationCos R + 2)) ^ 2 := by
      rw [smul_dotProduct, dotProduct_smul, sizes_dotProduct_sizes h, mul_pow,
        Real.sq_sqrt (by linarith), smul_eq_mul, smul_eq_mul]
      ring
    rw [isLogOf_iff hlen hdot]
    intro hR
    have hunit : ((th * √(rotationCos R + 2))⁻¹ • th • sizes R) ⬝ᵥ
        ((th * √(rotationCos R + 2))⁻¹ • th • sizes R) = 1 := by
      rw [smul_dotProduct, dotProduct_smul, hdot, smul_eq_mul, smul_eq_mul]
      field_simp
    have htrace := trace_rodrigues hunit (th * √(rotationCos R + 2))
    rw [hR] at htrace
    have hback : rotationCos R = Real.cos (th * √(rotationCos R + 2)) := by
      have hdef : rotationCos R = (R.trace - 1) / 2 := rfl
      linarith
    exact hcos.ne hback.symm

/-- **When the logarithm of a rotation gives it back.** For a rotation that is not too close to
none, the vector is not zero and the rotation about it, by its length, is the rotation, exactly when
the sine of the angle is not below the machine precision, or the rotation is a half turn about an
axis without components of opposite signs. -/
theorem omegaFromRot_log_iff (R : Matrix33 ℝ) (h : IsRotation R)
    (hfar : 1 / 10 ^ 12 ≤ |(R.trace - 1) / 2 - 1|) :
    (omegaFromRot R ≠ 0 ∧ calcRodrigues
        ((√(omegaFromRot R ⬝ᵥ omegaFromRot R))⁻¹ • omegaFromRot R)
        √(omegaFromRot R ⬝ᵥ omegaFromRot R) = R) ↔
      1 / 2 ^ 52 ≤ Real.sin (Real.arccos ((R.trace - 1) / 2)) ∨
        (R.trace - 1) / 2 = -1 ∧ ∀ i j, i ≠ j → 0 ≤ R i j := by
  change IsLogOf (omegaFromRot R) R ↔ 1 / 2 ^ 52 ≤ Real.sin (rotationAngle R) ∨
    rotationCos R = -1 ∧ ∀ i j, i ≠ j → 0 ≤ R i j
  rcases lt_or_ge (Real.sin (rotationAngle R)) (1 / 2 ^ 52) with hsin | hsin
  · rw [omegaFromRot_eq h hfar, if_pos hsin, or_iff_right (not_le.2 hsin)]
    exact isLogOf_sizes_iff h (rotationAngle_pos hfar h)
  · exact iff_of_true (isLogOf_of_sin h hfar (not_lt.2 hsin)) (.inl hsin)

/-- The half turn about the last axis. -/
def halfTurn : Matrix33 ℝ :=
  !![-1, 0, 0; 0, -1, 0; 0, 0, 1]

theorem omegaFromRot_log_halfTurn :
    omegaFromRot halfTurn ≠ 0 ∧ calcRodrigues
        ((√(omegaFromRot halfTurn ⬝ᵥ omegaFromRot halfTurn))⁻¹ • omegaFromRot halfTurn)
        √(omegaFromRot halfTurn ⬝ᵥ omegaFromRot halfTurn) = halfTurn := by
  have htrace : halfTurn.trace = -1 := by simp [halfTurn, trace_fin_three]
  refine (omegaFromRot_log_iff halfTurn ⟨?_, ?_⟩ ?_).2 (.inr ⟨?_, ?_⟩)
  · ext i j
    fin_cases i <;> fin_cases j <;> simp [halfTurn, mul_apply, Fin.sum_univ_three]
  · simp [halfTurn, det_fin_three]
  · rw [htrace]
    norm_num
  · rw [htrace]
    norm_num
  · intro i j hij
    fin_cases i <;> fin_cases j <;> simp [halfTurn] at hij ⊢

/-- The half turn about the diagonal of the second and the fourth quadrant. -/
def diagonalTurn : Matrix33 ℝ :=
  !![0, -1, 0; -1, 0, 0; 0, 0, -1]

/-- The signs of the diagonal are lost. -/
theorem not_log_diagonalTurn : IsRotation diagonalTurn ∧
    1 / 10 ^ 12 ≤ |(diagonalTurn.trace - 1) / 2 - 1| ∧
    ¬ (omegaFromRot diagonalTurn ≠ 0 ∧ calcRodrigues
        ((√(omegaFromRot diagonalTurn ⬝ᵥ omegaFromRot diagonalTurn))⁻¹ • omegaFromRot diagonalTurn)
        √(omegaFromRot diagonalTurn ⬝ᵥ omegaFromRot diagonalTurn) = diagonalTurn) := by
  have htrace : diagonalTurn.trace = -1 := by simp [diagonalTurn, trace_fin_three]
  have h : IsRotation diagonalTurn := by
    constructor
    · ext i j
      fin_cases i <;> fin_cases j <;> simp [diagonalTurn, mul_apply, Fin.sum_univ_three]
    · simp [diagonalTurn, det_fin_three]
  have hfar : 1 / 10 ^ 12 ≤ |(diagonalTurn.trace - 1) / 2 - 1| := by
    rw [htrace]
    norm_num
  have hcos : rotationCos diagonalTurn = -1 := by
    rw [rotationCos, htrace]
    norm_num
  have hsin : Real.sin (rotationAngle diagonalTurn) < 1 / 2 ^ 52 := by
    rw [rotationAngle, hcos, Real.arccos_neg_one, Real.sin_pi]
    norm_num
  refine ⟨h, hfar, ?_⟩
  change ¬ IsLogOf (omegaFromRot diagonalTurn) diagonalTurn
  rw [omegaFromRot_eq h hfar, if_pos hsin]
  refine fun hlog ↦ absurd (((isLogOf_sizes_iff h (rotationAngle_pos hfar h)).1 hlog).2 0 1
    (by decide)) ?_
  simp [diagonalTurn]

end OpenHRP
