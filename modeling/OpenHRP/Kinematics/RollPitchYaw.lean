import OpenHRP.Foundations.Rotation
import OpenHRP.Model.RealMath
import Mathlib.Analysis.SpecialFunctions.Complex.Arg

/-!
# Roll, pitch and yaw

`rpyFromRot` extracts three angles from a rotation and `calcRotFromRpy` multiplies the rotations
about the axes again. Away from the vertical the extraction is right. Near the vertical the roll is
recovered from a sine and a cosine that carry the cosine of the yaw as a factor; where that factor
is zero the roll is taken to be zero, so the rotation comes back only if its roll is zero
(`rotFromRpy_rpyFromRot_iff`).
-/

open Matrix

namespace OpenHRP

/-- More functions of the C mathematics library. -/
class CArcMath (K : Type*) where
  /-- Arc sine. -/
  asin : K → K
  /-- The angle of the vector with the given ordinate and abscissa. -/
  atan2 : K → K → K
  /-- The constant `PI`. -/
  pi : K

section Definitions

variable {K : Type*} [CommRing K] [LinearOrder K] [CMath K] [CArcMath K]

/-- The condition for the branch of `rpyFromRot` where `cos(p)` is nearly zero. -/
def NearVertical (m : Matrix33 K) : Prop :=
  |m 0 0| < |m 2 0| ∧ |m 1 0| < |m 2 0|

instance (m : Matrix33 K) : Decidable (NearVertical m) :=
  inferInstanceAs (Decidable (_ ∧ _))

/-- The sine of the pitch. -/
def clampSine (sp : K) : K :=
  if sp < -1 then -1 else if 1 < sp then 1 else sp

/-- The roll near the vertical. -/
def rollNearVertical (m : Matrix33 K) (sp : K) : K :=
  let roll := CArcMath.atan2 (sp * m 0 1 + m 1 2) (sp * m 0 2 - m 1 1)
  if 0 < m 0 0 then if roll < 0 then roll + CArcMath.pi else roll - CArcMath.pi else roll

/-- `rpyFromRot`: roll, pitch and yaw. -/
def rpyFromRot (m : Matrix33 K) : Vector3 K :=
  if NearVertical m then
    let sp := clampSine (-m 2 0)
    let pitch := CArcMath.asin sp
    let roll := rollNearVertical m sp
    let sr := CMath.sin roll
    let cr := CMath.cos roll
    let yaw :=
      if 0 < sp then
        CArcMath.atan2 (sr * m 1 1 + cr * m 1 2) (sr * m 0 1 + cr * m 0 2)
      else
        CArcMath.atan2 (-sr * m 1 1 - cr * m 1 2) (-sr * m 0 1 - cr * m 0 2)
    ![roll, pitch, yaw]
  else
    let yaw := CArcMath.atan2 (m 1 0) (m 0 0)
    let sa := CMath.sin yaw
    let ca := CMath.cos yaw
    let pitch := CArcMath.atan2 (-m 2 0) (ca * m 0 0 + sa * m 1 0)
    let roll := CArcMath.atan2 (sa * m 0 2 - ca * m 1 2) (-sa * m 0 1 + ca * m 1 1)
    ![roll, pitch, yaw]

/-- The matrix with the given sines and cosines of roll, pitch and yaw. -/
def rotOfSines (sr cr sp cp sy cy : K) : Matrix33 K :=
  !![cp * cy, sr * sp * cy - cr * sy, cr * sp * cy + sr * sy;
     cp * sy, sr * sp * sy + cr * cy, cr * sp * sy - sr * cy;
     -sp, sr * cp, cr * cp]

/-- `calcRotFromRpy`. -/
def calcRotFromRpy (r p y : K) : Matrix33 K :=
  rotOfSines (CMath.sin r) (CMath.cos r) (CMath.sin p) (CMath.cos p) (CMath.sin y) (CMath.cos y)

/-- `rotFromRpy`. -/
def rotFromRpy (rpy : Vector3 K) : Matrix33 K :=
  calcRotFromRpy (rpy 0) (rpy 1) (rpy 2)

end Definitions

noncomputable instance : CArcMath ℝ :=
  ⟨Real.arcsin, fun y x ↦ Complex.arg ⟨x, y⟩, Real.pi⟩

/-! ### Rotations with given sines and cosines -/

/-- Away from the vertical, the first column and the last row determine a rotation. -/
theorem rotOfSines_eq {K : Type*} [Field K] {m : Matrix33 K} (h : IsRotation m)
    {sr cr sp cp sy cy : K} (hcp : cp ≠ 0) (hp : sp ^ 2 + cp ^ 2 = 1) (h00 : cp * cy = m 0 0)
    (h10 : cp * sy = m 1 0) (h20 : -sp = m 2 0) (h21 : sr * cp = m 2 1) (h22 : cr * cp = m 2 2) :
    rotOfSines sr cr sp cp sy cy = m := by
  have e01 : m 0 1 = m 1 2 * -sp - cp * sy * (cr * cp) := by
    rw [h20, h10, h22, h.entry_eq_adjugate 0 1]
    simp [adjugate_fin_three]
    ring
  have e12 : m 1 2 = m 0 1 * -sp - cp * cy * (sr * cp) := by
    rw [h20, h00, h21, h.entry_eq_adjugate 1 2]
    simp [adjugate_fin_three]
    ring
  have e11 : m 1 1 = cp * cy * (cr * cp) - m 0 2 * -sp := by
    rw [h20, h00, h22, h.entry_eq_adjugate 1 1]
    simp [adjugate_fin_three]
  have e02 : m 0 2 = cp * sy * (sr * cp) - m 1 1 * -sp := by
    rw [h20, h10, h21, h.entry_eq_adjugate 0 2]
    simp [adjugate_fin_three]
  have hcp2 : cp ^ 2 ≠ 0 := pow_ne_zero 2 hcp
  have h01 : sr * sp * cy - cr * sy = m 0 1 :=
    mul_left_cancel₀ hcp2 (by linear_combination -e01 + sp * e12 - m 0 1 * hp)
  have h11 : sr * sp * sy + cr * cy = m 1 1 :=
    mul_left_cancel₀ hcp2 (by linear_combination -e11 - sp * e02 - m 1 1 * hp)
  have h12 : cr * sp * sy - sr * cy = m 1 2 := by
    linear_combination -e12 - sp * h01 + sr * cy * hp
  have h02 : cr * sp * cy + sr * sy = m 0 2 := by
    linear_combination -e02 + sp * h11 - sr * sy * hp
  ext i j
  fin_cases i <;> fin_cases j
  exacts [h00, h01, h02, h10, h11, h12, h20, h21, h22]

/-! ### Angles of vectors -/

theorem norm_of_sq_add_sq {x y c : ℝ} (hc : 0 ≤ c) (h : x ^ 2 + y ^ 2 = c ^ 2) :
    ‖(⟨x, y⟩ : ℂ)‖ = c := by
  rw [Complex.norm_def, Complex.normSq_mk, ← pow_two, ← pow_two, h, Real.sqrt_sq hc]

theorem mul_cos_atan2 {x y c : ℝ} (hc : 0 ≤ c) (h : x ^ 2 + y ^ 2 = c ^ 2) :
    c * CMath.cos (CArcMath.atan2 y x) = x := by
  have hcos := Complex.norm_mul_cos_arg ⟨x, y⟩
  rwa [norm_of_sq_add_sq hc h] at hcos

theorem mul_sin_atan2 {x y c : ℝ} (hc : 0 ≤ c) (h : x ^ 2 + y ^ 2 = c ^ 2) :
    c * CMath.sin (CArcMath.atan2 y x) = y := by
  have hsin := Complex.norm_mul_sin_arg ⟨x, y⟩
  rwa [norm_of_sq_add_sq hc h] at hsin

theorem atan2_zero_zero : CArcMath.atan2 (0 : ℝ) 0 = 0 :=
  Complex.arg_zero

theorem sin_sq_add_cos_sq (t : ℝ) : CMath.sin t ^ 2 + CMath.cos t ^ 2 = 1 :=
  Real.sin_sq_add_cos_sq t

/-! ### Near the vertical -/

section Near

variable {m : Matrix33 ℝ}

/-- The cosine of the pitch. -/
noncomputable def cosPitch (m : Matrix33 ℝ) : ℝ :=
  √(1 - m 2 0 ^ 2)

theorem sq_entry_le (h : IsRotation m) : m 2 0 ^ 2 ≤ 1 := by
  have hcol := h.column_mul_column 0 0
  rw [one_apply_eq] at hcol
  nlinarith only [hcol, mul_self_nonneg (m 0 0), mul_self_nonneg (m 1 0)]

theorem cosPitch_sq (h : IsRotation m) : cosPitch m ^ 2 = 1 - m 2 0 ^ 2 :=
  Real.sq_sqrt (sub_nonneg.2 (sq_entry_le h))

theorem cosPitch_sq_row (h : IsRotation m) : m 2 1 ^ 2 + m 2 2 ^ 2 = cosPitch m ^ 2 := by
  have hrow := h.row_mul_row 2 2
  rw [one_apply_eq] at hrow
  rw [cosPitch_sq h]
  linear_combination hrow

theorem cosPitch_sq_column (h : IsRotation m) : m 0 0 ^ 2 + m 1 0 ^ 2 = cosPitch m ^ 2 := by
  have hcol := h.column_mul_column 0 0
  rw [one_apply_eq] at hcol
  rw [cosPitch_sq h]
  linear_combination hcol

theorem cosPitch_nonneg (m : Matrix33 ℝ) : 0 ≤ cosPitch m :=
  Real.sqrt_nonneg _

/-- The clamp does nothing to a rotation. -/
theorem clampSine_eq (h : IsRotation m) : clampSine (-m 2 0) = -m 2 0 := by
  obtain ⟨hlo, hhi⟩ := abs_le.1 (sq_le_one_iff_abs_le_one _ |>.1 (sq_entry_le h))
  rw [clampSine, if_neg (by linarith), if_neg (by linarith)]

theorem sin_asin (h : IsRotation m) : CMath.sin (CArcMath.asin (-m 2 0)) = -m 2 0 := by
  obtain ⟨hlo, hhi⟩ := abs_le.1 (sq_le_one_iff_abs_le_one _ |>.1 (sq_entry_le h))
  exact Real.sin_arcsin (by linarith) (by linarith)

theorem cos_asin (m : Matrix33 ℝ) : CMath.cos (CArcMath.asin (-m 2 0)) = cosPitch m := by
  rw [cosPitch, ← neg_sq]
  exact Real.cos_arcsin _

/-- The sine and the cosine of the roll carry the entry with the cosine of the yaw as a factor. -/
theorem rollNearVertical_eq (h : IsRotation m) :
    rollNearVertical m (-m 2 0) =
      let roll := CArcMath.atan2 (-m 0 0 * m 2 1) (-m 0 0 * m 2 2)
      if 0 < m 0 0 then if roll < 0 then roll + CArcMath.pi else roll - CArcMath.pi else roll := by
  have hy : -m 2 0 * m 0 1 + m 1 2 = -m 0 0 * m 2 1 := by
    rw [h.entry_eq_adjugate 1 2]
    simp [adjugate_fin_three]
    ring
  have hx : -m 2 0 * m 0 2 - m 1 1 = -m 0 0 * m 2 2 := by
    rw [h.entry_eq_adjugate 1 1]
    simp [adjugate_fin_three]
    ring
  rw [rollNearVertical, hy, hx]

theorem rollNearVertical_of_zero (h : IsRotation m) (h00 : m 0 0 = 0) :
    rollNearVertical m (-m 2 0) = 0 := by
  rw [rollNearVertical_eq h, h00]
  simp [atan2_zero_zero]

/-- The roll is right where its sine and cosine do not vanish. -/
theorem rollNearVertical_spec (h : IsRotation m) (hroll : m 0 0 ≠ 0 ∨ m 2 1 = 0 ∧ 0 ≤ m 2 2) :
    CMath.sin (rollNearVertical m (-m 2 0)) * cosPitch m = m 2 1 ∧
      CMath.cos (rollNearVertical m (-m 2 0)) * cosPitch m = m 2 2 := by
  have hrow := cosPitch_sq_row h
  have hcp := cosPitch_nonneg m
  by_cases h00 : m 0 0 = 0
  · obtain ⟨h21, h22⟩ := hroll.resolve_left (not_not.2 h00)
    have hcp' : cosPitch m = m 2 2 := by
      rw [← sq_eq_sq₀ hcp h22, ← hrow, h21]
      ring
    rw [rollNearVertical_of_zero h h00, h21, hcp']
    exact ⟨by rw [show CMath.sin (0 : ℝ) = 0 from Real.sin_zero, zero_mul],
      by rw [show CMath.cos (0 : ℝ) = 1 from Real.cos_zero, one_mul]⟩
  · rw [rollNearVertical_eq h]
    have hnorm : (-m 0 0 * m 2 2) ^ 2 + (-m 0 0 * m 2 1) ^ 2 = (|m 0 0| * cosPitch m) ^ 2 := by
      rw [mul_pow |m 0 0|, sq_abs, ← hrow]
      ring
    have hcos := mul_cos_atan2 (mul_nonneg (abs_nonneg _) hcp) hnorm
    have hsin := mul_sin_atan2 (mul_nonneg (abs_nonneg _) hcp) hnorm
    set roll : ℝ := CArcMath.atan2 (-m 0 0 * m 2 1) (-m 0 0 * m 2 2)
    dsimp only
    by_cases hpos : 0 < m 0 0
    · -- the yaw has a positive cosine: the angle is off by half a turn
      rw [abs_of_pos hpos] at hcos hsin
      have hturn : ∀ t : ℝ, CMath.cos t = -CMath.cos roll → CMath.sin t = -CMath.sin roll →
          CMath.sin t * cosPitch m = m 2 1 ∧ CMath.cos t * cosPitch m = m 2 2 := by
        intro t hct hst
        refine ⟨mul_left_cancel₀ h00 ?_, mul_left_cancel₀ h00 ?_⟩
        · rw [hst]
          linear_combination -hsin
        · rw [hct]
          linear_combination -hcos
      rw [if_pos hpos]
      split
      · exact hturn _ (Real.cos_add_pi roll) (Real.sin_add_pi roll)
      · exact hturn _ (Real.cos_sub_pi roll) (Real.sin_sub_pi roll)
    · have hneg : m 0 0 < 0 := lt_of_le_of_ne (not_lt.1 hpos) h00
      rw [abs_of_neg hneg] at hcos hsin
      rw [if_neg hpos]
      refine ⟨mul_left_cancel₀ h00 ?_, mul_left_cancel₀ h00 ?_⟩
      · linear_combination -hsin
      · linear_combination -hcos

/-- The yaw near the vertical. -/
noncomputable def yawNearVertical (m : Matrix33 ℝ) (sp roll : ℝ) : ℝ :=
  if 0 < sp then
    CArcMath.atan2 (CMath.sin roll * m 1 1 + CMath.cos roll * m 1 2)
      (CMath.sin roll * m 0 1 + CMath.cos roll * m 0 2)
  else
    CArcMath.atan2 (-CMath.sin roll * m 1 1 - CMath.cos roll * m 1 2)
      (-CMath.sin roll * m 0 1 - CMath.cos roll * m 0 2)

/-- With a right roll, the sine and the cosine of the yaw carry the sine of the pitch as a factor.
-/
theorem yawNearVertical_spec (h : IsRotation m) {roll : ℝ}
    (hsin : CMath.sin roll * cosPitch m = m 2 1) (hcos : CMath.cos roll * cosPitch m = m 2 2) :
    -m 2 0 * CMath.cos (yawNearVertical m (-m 2 0) roll) =
        CMath.sin roll * m 0 1 + CMath.cos roll * m 0 2 ∧
      -m 2 0 * CMath.sin (yawNearVertical m (-m 2 0) roll) =
        CMath.sin roll * m 1 1 + CMath.cos roll * m 1 2 := by
  have hunit := sin_sq_add_cos_sq roll
  have h11 := h.column_mul_column 1 1
  have h12 := h.column_mul_column 1 2
  have h22 := h.column_mul_column 2 2
  have hcp := cosPitch_sq h
  rw [one_apply_eq] at h11 h22
  rw [one_apply_ne (by decide)] at h12
  set sr := CMath.sin roll
  set cr := CMath.cos roll
  -- the image of a unit vector, whose last component is the cosine of the pitch
  have hlast : sr * m 2 1 + cr * m 2 2 = cosPitch m := by
    linear_combination cosPitch m * hunit - sr * hsin - cr * hcos
  have hnorm : (sr * m 0 1 + cr * m 0 2) ^ 2 + (sr * m 1 1 + cr * m 1 2) ^ 2 = m 2 0 ^ 2 := by
    linear_combination sr ^ 2 * h11 + 2 * sr * cr * h12 + cr ^ 2 * h22 + hunit -
      (sr * m 2 1 + cr * m 2 2 + cosPitch m) * hlast - hcp
  rw [yawNearVertical]
  split
  · rename_i hpos
    rw [← neg_sq (m 2 0)] at hnorm
    exact ⟨mul_cos_atan2 hpos.le hnorm, mul_sin_atan2 hpos.le hnorm⟩
  · rename_i hneg
    have hnorm' : (-sr * m 0 1 - cr * m 0 2) ^ 2 + (-sr * m 1 1 - cr * m 1 2) ^ 2 = m 2 0 ^ 2 := by
      rw [← hnorm]
      ring
    have h0 : 0 ≤ m 2 0 := by linarith only [hneg]
    have hcyaw := mul_cos_atan2 h0 hnorm'
    have hsyaw := mul_sin_atan2 h0 hnorm'
    exact ⟨by linear_combination -hcyaw, by linear_combination -hsyaw⟩

/-- The entries of a rotation at the vertical. -/
theorem entries_of_vertical (h : IsRotation m) (hcp : cosPitch m = 0) :
    (m 0 0 = 0 ∧ m 1 0 = 0 ∧ m 2 1 = 0 ∧ m 2 2 = 0) ∧
      m 2 0 ^ 2 = 1 ∧ m 0 1 = m 1 2 * m 2 0 ∧ m 1 1 = -m 0 2 * m 2 0 := by
  have hrow := cosPitch_sq_row h
  have hcol := cosPitch_sq_column h
  have h20 := cosPitch_sq h
  rw [hcp] at h20 hrow hcol
  have h00 : m 0 0 = 0 := by nlinarith only [hcol, sq_nonneg (m 0 0), sq_nonneg (m 1 0)]
  have h10 : m 1 0 = 0 := by nlinarith only [hcol, sq_nonneg (m 0 0), sq_nonneg (m 1 0)]
  have h21 : m 2 1 = 0 := by nlinarith only [hrow, sq_nonneg (m 2 1), sq_nonneg (m 2 2)]
  have h22 : m 2 2 = 0 := by nlinarith only [hrow, sq_nonneg (m 2 1), sq_nonneg (m 2 2)]
  refine ⟨⟨h00, h10, h21, h22⟩, by linarith only [h20], ?_, ?_⟩
  · rw [h.entry_eq_adjugate 0 1]
    simp [adjugate_fin_three, h10]
  · rw [h.entry_eq_adjugate 1 1]
    simp [adjugate_fin_three, h00]

/-- At the vertical, two entries determine a rotation. -/
theorem rotOfSines_eq_iff_of_vertical (h : IsRotation m) (hcp : cosPitch m = 0) {sr cr sy cy : ℝ} :
    rotOfSines sr cr (-m 2 0) 0 sy cy = m ↔
      sr * -m 2 0 * sy + cr * cy = m 1 1 ∧ cr * -m 2 0 * sy - sr * cy = m 1 2 := by
  obtain ⟨⟨h00, h10, h21, h22⟩, h20, h01, h11⟩ := entries_of_vertical h hcp
  constructor
  · intro heq
    exact ⟨congrFun (congrFun heq 1) 1, congrFun (congrFun heq 1) 2⟩
  · rintro ⟨e11, e12⟩
    have e01 : sr * -m 2 0 * cy - cr * sy = m 0 1 := by
      rw [h01]
      linear_combination m 2 0 * e12 + cr * sy * h20
    have e02 : cr * -m 2 0 * cy + sr * sy = m 0 2 := by
      linear_combination -m 2 0 * (e11 + h11) + (m 0 2 - sr * sy) * h20
    ext i j
    fin_cases i <;> fin_cases j
    exacts [(zero_mul _).trans h00.symm, e01, e02, (zero_mul _).trans h10.symm, e11, e12,
      neg_neg _, (mul_zero _).trans h21.symm, (mul_zero _).trans h22.symm]

/-- With a right roll, the rotation comes back. -/
theorem rotOfSines_nearVertical (h : IsRotation m) (h20 : m 2 0 ≠ 0) {roll yaw : ℝ}
    (hroll : m 0 0 = 0 → roll = 0) (hsin : CMath.sin roll * cosPitch m = m 2 1)
    (hcos : CMath.cos roll * cosPitch m = m 2 2)
    (hcyaw : -m 2 0 * CMath.cos yaw = CMath.sin roll * m 0 1 + CMath.cos roll * m 0 2)
    (hsyaw : -m 2 0 * CMath.sin yaw = CMath.sin roll * m 1 1 + CMath.cos roll * m 1 2) :
    rotOfSines (CMath.sin roll) (CMath.cos roll) (-m 2 0) (cosPitch m) (CMath.sin yaw)
      (CMath.cos yaw) = m := by
  have hp : (-m 2 0) ^ 2 + cosPitch m ^ 2 = 1 := by
    rw [cosPitch_sq h]
    ring
  by_cases hcp : cosPitch m = 0
  · -- at the vertical itself the roll is zero, and the yaw takes its place
    obtain ⟨⟨h00, -, -, -⟩, h20sq, -, h11⟩ := entries_of_vertical h hcp
    have hs0 : CMath.sin (0 : ℝ) = 0 := Real.sin_zero
    have hc0 : CMath.cos (0 : ℝ) = 1 := Real.cos_zero
    rw [hroll h00, hs0, hc0] at hcyaw hsyaw ⊢
    rw [hcp, rotOfSines_eq_iff_of_vertical h hcp]
    refine ⟨?_, ?_⟩
    · linear_combination -m 2 0 * hcyaw - h11 - CMath.cos yaw * h20sq
    · linear_combination hsyaw
  · have hrow0 := h.row_mul_row 2 0
    have hrow1 := h.row_mul_row 2 1
    rw [one_apply_ne (by decide)] at hrow0 hrow1
    refine rotOfSines_eq h hcp hp ?_ ?_ (neg_neg _) hsin hcos
    · refine mul_left_cancel₀ h20 ?_
      linear_combination -cosPitch m * hcyaw - m 0 1 * hsin - m 0 2 * hcos - hrow0
    · refine mul_left_cancel₀ h20 ?_
      linear_combination -cosPitch m * hsyaw - m 1 1 * hsin - m 1 2 * hcos - hrow1

end Near

/-! ### Extraction is a right inverse -/

section Extraction

variable {m : Matrix33 ℝ}

theorem rpyFromRot_of_nearVertical (h : IsRotation m) (hm : NearVertical m) :
    rpyFromRot m = ![rollNearVertical m (-m 2 0), CArcMath.asin (-m 2 0),
      yawNearVertical m (-m 2 0) (rollNearVertical m (-m 2 0))] := by
  rw [rpyFromRot, if_pos hm, clampSine_eq h]
  rfl

theorem rotFromRpy_vec (r p y : ℝ) :
    rotFromRpy ![r, p, y] = rotOfSines (CMath.sin r) (CMath.cos r) (CMath.sin p) (CMath.cos p)
      (CMath.sin y) (CMath.cos y) :=
  rfl

/-- Away from the vertical the extraction is right. -/
theorem rotFromRpy_of_not_nearVertical (h : IsRotation m) (hm : ¬NearVertical m) :
    rotFromRpy (rpyFromRot m) = m := by
  have hcp : cosPitch m ≠ 0 := by
    intro hcp
    obtain ⟨⟨h00, h10, -, -⟩, h20, -, -⟩ := entries_of_vertical h hcp
    have hpos : 0 < |m 2 0| := abs_pos.2 fun h0 ↦ by norm_num [h0] at h20
    exact hm ⟨by rwa [h00, abs_zero], by rwa [h10, abs_zero]⟩
  have hcp0 := cosPitch_nonneg m
  have hcol := cosPitch_sq_column h
  have hcyaw := mul_cos_atan2 hcp0 hcol
  have hsyaw := mul_sin_atan2 hcp0 hcol
  rw [rpyFromRot, if_neg hm]
  dsimp only
  set yaw : ℝ := CArcMath.atan2 (m 1 0) (m 0 0)
  have hunit := sin_sq_add_cos_sq yaw
  have hlength : CMath.cos yaw * m 0 0 + CMath.sin yaw * m 1 0 = cosPitch m := by
    linear_combination cosPitch m * hunit - CMath.cos yaw * hcyaw - CMath.sin yaw * hsyaw
  rw [hlength]
  have hpitch : cosPitch m ^ 2 + (-m 2 0) ^ 2 = 1 ^ 2 := by
    rw [cosPitch_sq h]
    ring
  have hcpitch := mul_cos_atan2 zero_le_one hpitch
  have hspitch := mul_sin_atan2 zero_le_one hpitch
  set pitch : ℝ := CArcMath.atan2 (-m 2 0) (cosPitch m)
  rw [one_mul] at hcpitch hspitch
  -- the sine and the cosine of the roll, times the cosine of the pitch
  have e21 : m 2 1 = m 0 2 * m 1 0 - m 0 0 * m 1 2 := by
    rw [h.entry_eq_adjugate 2 1]
    simp [adjugate_fin_three]
    ring
  have e22 : m 2 2 = m 0 0 * m 1 1 - m 0 1 * m 1 0 := by
    rw [h.entry_eq_adjugate 2 2]
    simp [adjugate_fin_three]
  have h21 : cosPitch m * (CMath.sin yaw * m 0 2 - CMath.cos yaw * m 1 2) = m 2 1 := by
    linear_combination m 0 2 * hsyaw - m 1 2 * hcyaw - e21
  have h22 : cosPitch m * (-CMath.sin yaw * m 0 1 + CMath.cos yaw * m 1 1) = m 2 2 := by
    linear_combination -m 0 1 * hsyaw + m 1 1 * hcyaw - e22
  have hroll : (-CMath.sin yaw * m 0 1 + CMath.cos yaw * m 1 1) ^ 2 +
      (CMath.sin yaw * m 0 2 - CMath.cos yaw * m 1 2) ^ 2 = 1 ^ 2 := by
    have hrow := cosPitch_sq_row h
    refine mul_left_cancel₀ (pow_ne_zero 2 hcp) ?_
    rw [← h21, ← h22] at hrow
    linear_combination hrow
  have hcroll := mul_cos_atan2 zero_le_one hroll
  have hsroll := mul_sin_atan2 zero_le_one hroll
  rw [one_mul] at hcroll hsroll
  rw [rotFromRpy_vec, hspitch, hcpitch, hsroll, hcroll]
  refine rotOfSines_eq h hcp (by linear_combination hpitch) hcyaw hsyaw (neg_neg _) ?_ ?_
  · rw [mul_comm, h21]
  · rw [mul_comm, h22]

/-- The rotation comes back, unless it is near the vertical with a yaw whose cosine is zero and a
roll other than zero. -/
theorem rotFromRpy_rpyFromRot_iff (h : IsRotation m) :
    rotFromRpy (rpyFromRot m) = m ↔
      ¬(NearVertical m ∧ m 0 0 = 0) ∨ m 2 1 = 0 ∧ 0 ≤ m 2 2 := by
  by_cases hm : NearVertical m
  · have h20 : m 2 0 ≠ 0 := abs_pos.1 ((abs_nonneg _).trans_lt hm.1)
    have hvec := rpyFromRot_of_nearVertical h hm
    constructor
    · intro hback
      by_cases h00 : m 0 0 = 0
      · -- the roll is zero
        rw [hvec, rollNearVertical_of_zero h h00, rotFromRpy_vec, cos_asin] at hback
        refine .inr ⟨?_, ?_⟩
        · rw [← hback]
          exact (congrArg (· * cosPitch m) Real.sin_zero).trans (zero_mul _)
        · rw [← hback]
          exact (cosPitch_nonneg m).trans_eq
            ((congrArg (· * cosPitch m) Real.cos_zero).trans (one_mul _)).symm
      · exact .inl fun hzero ↦ h00 hzero.2
    · intro hcond
      have hroll : m 0 0 ≠ 0 ∨ m 2 1 = 0 ∧ 0 ≤ m 2 2 :=
        hcond.imp_left fun hne h00 ↦ hne ⟨hm, h00⟩
      obtain ⟨hsin, hcos⟩ := rollNearVertical_spec h hroll
      obtain ⟨hcyaw, hsyaw⟩ := yawNearVertical_spec h hsin hcos
      rw [hvec, rotFromRpy_vec, sin_asin h, cos_asin]
      exact rotOfSines_nearVertical h h20 (rollNearVertical_of_zero h) hsin hcos hcyaw hsyaw
  · exact iff_of_true (rotFromRpy_of_not_nearVertical h hm) (.inl fun hzero ↦ hm hzero.1)

end Extraction

/-- A quarter turn of roll, a pitch with sine `4/5` and no yaw. -/
noncomputable def rolledAndPitched : Matrix33 ℝ :=
  !![3 / 5, 4 / 5, 0; 0, 0, -1; -4 / 5, 3 / 5, 0]

theorem isRotation_rolledAndPitched : IsRotation rolledAndPitched := by
  refine ⟨?_, ?_⟩
  · ext i j
    fin_cases i <;> fin_cases j <;> 
      simp [rolledAndPitched, mul_apply, Fin.sum_univ_three] <;> norm_num
  · simp [rolledAndPitched, det_fin_three]
    norm_num

/-- Near the vertical with a yaw of zero the rotation comes back. -/
theorem rotFromRpy_rolledAndPitched :
    NearVertical rolledAndPitched ∧
      rotFromRpy (rpyFromRot rolledAndPitched) = rolledAndPitched := by
  refine ⟨?_, (rotFromRpy_rpyFromRot_iff isRotation_rolledAndPitched).2 (.inl fun h ↦ ?_)⟩
  · simp [NearVertical, rolledAndPitched, abs_of_pos]
    norm_num
  · norm_num [rolledAndPitched] at h

/-- The same roll and pitch, and a quarter turn of yaw. -/
noncomputable def rolledPitchedAndTurned : Matrix33 ℝ :=
  !![0, 0, 1; 3 / 5, 4 / 5, 0; -4 / 5, 3 / 5, 0]

theorem isRotation_rolledPitchedAndTurned : IsRotation rolledPitchedAndTurned := by
  refine ⟨?_, ?_⟩
  · ext i j
    fin_cases i <;> fin_cases j <;> 
      simp [rolledPitchedAndTurned, mul_apply, Fin.sum_univ_three] <;> norm_num
  · simp [rolledPitchedAndTurned, det_fin_three]
    norm_num

/-- Sine and cosine of the roll vanish, and the roll is lost. -/
theorem not_rotFromRpy_rpyFromRot :
    ¬∀ m : Matrix33 ℝ, IsRotation m → rotFromRpy (rpyFromRot m) = m := fun hall ↦ by
  have h := isRotation_rolledPitchedAndTurned
  have hm : NearVertical rolledPitchedAndTurned := by
    simp [NearVertical, rolledPitchedAndTurned, abs_of_pos]
    norm_num
  have hback := hall rolledPitchedAndTurned h
  rw [rpyFromRot_of_nearVertical h hm,
    rollNearVertical_of_zero h (by norm_num [rolledPitchedAndTurned]), rotFromRpy_vec] at hback
  have h21 := congrFun (congrFun hback 2) 1
  have hsin : CMath.sin (0 : ℝ) = 0 := Real.sin_zero
  simp [rotOfSines, hsin, rolledPitchedAndTurned] at h21
  norm_num at h21

end OpenHRP
