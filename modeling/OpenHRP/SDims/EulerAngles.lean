import OpenHRP.Kinematics.RollPitchYaw

/-!
# Euler angles in four conventions

A matrix is turned into three angles and back in the conventions xyz, xzy, zyx and yzx. Exchanging
axes, transposing and changing signs turn each convention into xyz, that is into roll, pitch and yaw
(`toXyz_ea2mat`). Where the cosine of the middle angle is zero, one of the other two angles is set
to zero and the remaining one is read from two entries. In the conventions xyz and yzx one of these
entries carries the sine of the middle angle as a factor, so that the angle has the wrong sign where
that sine is `-1` (`ea2mat_mat2ea_iff`).
-/

open Matrix

namespace OpenHRP.EulerAngles

section Code

variable {K : Type*} [Field K] [LinearOrder K] [CMath K] [CArcMath K]

/-- `TINY`. -/
def TINY : K :=
  1 / 10 ^ 8

/-- `ea2mat_xyz`. -/
def ea2matXyz (ea : Vector3 K) : Matrix33 K :=
  let ca := CMath.cos (ea 0)
  let sa := CMath.sin (ea 0)
  let cb := CMath.cos (ea 1)
  let sb := CMath.sin (ea 1)
  let cc := CMath.cos (ea 2)
  let sc := CMath.sin (ea 2)
  !![cb * cc, sa * sb * cc - ca * sc, ca * sb * cc + sa * sc;
     cb * sc, sa * sb * sc + ca * cc, ca * sb * sc - sa * cc;
     -sb, sa * cb, ca * cb]

/-- `mat2ea_xyz`. -/
def mat2eaXyz (mat : Matrix33 K) : Vector3 K :=
  let cb := CMath.sqrt (mat 2 1 * mat 2 1 + mat 2 2 * mat 2 2)
  let m2 := CArcMath.atan2 (-mat 2 0) cb
  if cb < TINY then
    ![CArcMath.atan2 (mat 0 1) (mat 1 1), m2, 0]
  else
    ![CArcMath.atan2 (mat 2 1 / cb) (mat 2 2 / cb), m2,
      CArcMath.atan2 (mat 1 0 / cb) (mat 0 0 / cb)]

/-- `ea2mat_xzy`. -/
def ea2matXzy (ea : Vector3 K) : Matrix33 K :=
  let c1 := CMath.cos (ea 0)
  let s1 := CMath.sin (ea 0)
  let c2 := CMath.cos (ea 1)
  let s2 := CMath.sin (ea 1)
  let c3 := CMath.cos (ea 2)
  let s3 := CMath.sin (ea 2)
  !![c2 * c3, s1 * s3 - c1 * s2 * c3, c1 * s3 + s1 * s2 * c3;
     s2, c1 * c2, -s1 * c2;
     -c2 * s3, s1 * c3 + c1 * s2 * s3, c1 * c3 - s1 * s2 * s3]

/-- `mat2ea_xzy`. -/
def mat2eaXzy (mat : Matrix33 K) : Vector3 K :=
  let c2 := CMath.sqrt (mat 1 1 * mat 1 1 + mat 1 2 * mat 1 2)
  let m2 := CArcMath.atan2 (mat 1 0) c2
  if c2 < TINY then
    ![CArcMath.atan2 (mat 2 1) (mat 2 2), m2, 0]
  else
    ![CArcMath.atan2 (-mat 1 2) (mat 1 1), m2, CArcMath.atan2 (-mat 2 0) (mat 0 0)]

/-- `ea2mat_zyx`. -/
def ea2matZyx (ea : Vector3 K) : Matrix33 K :=
  let c1 := CMath.cos (ea 0)
  let s1 := CMath.sin (ea 0)
  let c2 := CMath.cos (ea 1)
  let s2 := CMath.sin (ea 1)
  let c3 := CMath.cos (ea 2)
  let s3 := CMath.sin (ea 2)
  !![c1 * c2, -s1 * c2, s2;
     s1 * c3 + c1 * s2 * s3, c1 * c3 - s1 * s2 * s3, -c2 * s3;
     s1 * s3 - c1 * s2 * c3, c1 * s3 + s1 * s2 * s3, c2 * c3]

/-- `mat2ea_zyx`. -/
def mat2eaZyx (mat : Matrix33 K) : Vector3 K :=
  let c2 := CMath.sqrt (mat 0 0 * mat 0 0 + mat 0 1 * mat 0 1)
  let m2 := CArcMath.atan2 (mat 0 2) c2
  if c2 < TINY then
    ![CArcMath.atan2 (mat 1 0) (mat 1 1), m2, 0]
  else
    ![CArcMath.atan2 (-mat 0 1) (mat 0 0), m2, CArcMath.atan2 (-mat 1 2) (mat 2 2)]

/-- `ea2mat_yzx`. -/
def ea2matYzx (ea : Vector3 K) : Matrix33 K :=
  let c1 := CMath.cos (ea 0)
  let s1 := CMath.sin (ea 0)
  let c2 := CMath.cos (ea 1)
  let s2 := CMath.sin (ea 1)
  let c3 := CMath.cos (ea 2)
  let s3 := CMath.sin (ea 2)
  !![c1 * c2, -s2, s1 * c2;
     s1 * s3 + c1 * s2 * c3, c2 * c3, -c1 * s3 + s1 * s2 * c3;
     -s1 * c3 + c1 * s2 * s3, c2 * s3, c1 * c3 + s1 * s2 * s3]

/-- `mat2ea_yzx`. -/
def mat2eaYzx (mat : Matrix33 K) : Vector3 K :=
  let c2 := CMath.sqrt (mat 0 0 * mat 0 0 + mat 0 2 * mat 0 2)
  let m2 := CArcMath.atan2 (-mat 0 1) c2
  if c2 < TINY then
    ![CArcMath.atan2 (mat 1 2) (mat 2 2), m2, 0]
  else
    ![CArcMath.atan2 (mat 0 2) (mat 0 0), m2, CArcMath.atan2 (mat 2 1) (mat 1 1)]

end Code

/-- The conventions. -/
inductive Convention
  | xyz
  | xzy
  | zyx
  | yzx

namespace Convention

section Code

variable {K : Type*} [Field K] [LinearOrder K] [CMath K] [CArcMath K]

/-- The matrix with the given angles. -/
def ea2mat : Convention → Vector3 K → Matrix33 K
  | xyz => ea2matXyz
  | xzy => ea2matXzy
  | zyx => ea2matZyx
  | yzx => ea2matYzx

/-- The angles of a matrix. -/
def mat2ea : Convention → Matrix33 K → Vector3 K
  | xyz => mat2eaXyz
  | xzy => mat2eaXzy
  | zyx => mat2eaZyx
  | yzx => mat2eaYzx

/-- The cosine of the middle angle. -/
def cosineTerm : Convention → Matrix33 K → K
  | xyz, mat => CMath.sqrt (mat 2 1 * mat 2 1 + mat 2 2 * mat 2 2)
  | xzy, mat => CMath.sqrt (mat 1 1 * mat 1 1 + mat 1 2 * mat 1 2)
  | zyx, mat => CMath.sqrt (mat 0 0 * mat 0 0 + mat 0 1 * mat 0 1)
  | yzx, mat => CMath.sqrt (mat 0 0 * mat 0 0 + mat 0 2 * mat 0 2)

/-- The rotations that come back from their angles. -/
def Recovers : Convention → Matrix33 K → Prop
  | xyz, mat => mat 2 0 = 1 → mat 0 1 = 0
  | xzy, _ => True
  | zyx, mat =>
    if mat 0 0 = 0 ∧ mat 0 1 = 0 then mat 1 0 = 0
    else mat 0 1 = 0 ∨ mat 0 2 = 0 ∨ mat 1 2 + mat 2 2 = 0
  | yzx, mat => mat 0 1 = 1 → mat 1 2 = 0

/-- The matrix of the convention xyz. -/
def toXyz : Convention → Matrix33 K → Matrix33 K
  | xyz, mat => mat
  | xzy, mat => mat.submatrix (Equiv.swap 1 2) (Equiv.swap 1 2)
  | zyx, mat => matᵀ
  | yzx, mat => (mat.submatrix (Equiv.swap 1 2) (Equiv.swap 1 2))ᵀ

/-- Roll, pitch and yaw. -/
def toRpy : Convention → Vector3 K → Vector3 K
  | xyz, ea => ea
  | xzy, ea => ![-ea 0, -ea 1, -ea 2]
  | zyx, ea => ![-ea 2, -ea 1, -ea 0]
  | yzx, ea => ![ea 2, ea 1, ea 0]

end Code

variable {mat : Matrix33 ℝ} (c : Convention)

theorem toXyz_toXyz : c.toXyz (c.toXyz mat) = mat := by
  ext i j
  cases c with
  | xyz => rfl
  | xzy =>
    show mat (Equiv.swap 1 2 (Equiv.swap 1 2 i)) (Equiv.swap 1 2 (Equiv.swap 1 2 j)) = mat i j
    rw [Equiv.swap_apply_self, Equiv.swap_apply_self]
  | zyx => rfl
  | yzx =>
    show mat (Equiv.swap 1 2 (Equiv.swap 1 2 i)) (Equiv.swap 1 2 (Equiv.swap 1 2 j)) = mat i j
    rw [Equiv.swap_apply_self, Equiv.swap_apply_self]

theorem toXyz_injective : Function.Injective (c.toXyz : Matrix33 ℝ → Matrix33 ℝ) :=
  Function.LeftInverse.injective fun _ ↦ c.toXyz_toXyz

end Convention

variable {mat : Matrix33 ℝ}

/-- Exchanging two axes keeps rotations. -/
theorem isRotation_submatrix (h : IsRotation mat) (e : Equiv.Perm (Fin 3)) :
    IsRotation (mat.submatrix e e) :=
  ⟨by rw [transpose_submatrix, submatrix_mul_equiv, h.transpose_mul_self, submatrix_one_equiv],
    by rw [det_submatrix_equiv_self, h.det]⟩

namespace Convention

variable {mat : Matrix33 ℝ} (c : Convention)

theorem isRotation_toXyz (h : IsRotation mat) : IsRotation (c.toXyz mat) := by
  cases c with
  | xyz => exact h
  | xzy => exact isRotation_submatrix h _
  | zyx => exact h.transpose
  | yzx => exact (isRotation_submatrix h _).transpose

/-- The cosine term is the cosine of the pitch. -/
theorem cosineTerm_eq (h : IsRotation mat) : c.cosineTerm mat = cosPitch (c.toXyz mat) := by
  have hM := c.isRotation_toXyz h
  have hrow := cosPitch_sq_row hM
  have hcolumn := cosPitch_sq_column hM
  have heq : ∀ {x y : ℝ}, x ^ 2 + y ^ 2 = cosPitch (c.toXyz mat) ^ 2 →
      CMath.sqrt (x * x + y * y) = cosPitch (c.toXyz mat) := fun {x y} hxy ↦ by
    rw [← pow_two, ← pow_two, hxy]
    exact Real.sqrt_sq (cosPitch_nonneg _)
  cases c with
  | xyz => exact heq hrow
  | xzy => exact heq ((add_comm _ _).trans hrow)
  | zyx => exact heq hcolumn
  | yzx => exact heq hcolumn

/-- The matrix of the angles, but for a slip in one entry of the convention zyx. -/
theorem toXyz_ea2mat (hc : c ≠ zyx) (ea : Vector3 ℝ) :
    c.toXyz (c.ea2mat ea) = rotFromRpy (c.toRpy ea) := by
  have hsin : ∀ t : ℝ, CMath.sin (-t) = -CMath.sin t := Real.sin_neg
  have hcos : ∀ t : ℝ, CMath.cos (-t) = CMath.cos t := Real.cos_neg
  cases c with
  | xyz => rfl
  | zyx => exact absurd rfl hc
  | xzy | yzx =>
    ext i j
    fin_cases i <;> fin_cases j <;>
      simp [toXyz, toRpy, ea2mat, ea2matXzy, ea2matYzx, rotFromRpy, calcRotFromRpy, rotOfSines,
        hsin, hcos, Equiv.swap_apply_def] <;> ring

end Convention

/-! ### Angles that are read from entries -/

/-- The angle of a vector of the length `r`. -/
def IsAngle (r x y t : ℝ) : Prop :=
  r * CMath.cos t = x ∧ r * CMath.sin t = y

namespace IsAngle

variable {r x y : ℝ}

theorem atan2 (hr : 0 ≤ r) (h : x ^ 2 + y ^ 2 = r ^ 2) : IsAngle r x y (CArcMath.atan2 y x) :=
  ⟨mul_cos_atan2 hr h, mul_sin_atan2 hr h⟩

theorem neg {t : ℝ} (h : IsAngle r x y t) : IsAngle r x (-y) (-t) := by
  refine ⟨(congrArg (r * ·) (Real.cos_neg t)).trans h.1, ?_⟩
  rw [← h.2, ← mul_neg]
  exact congrArg (r * ·) (Real.sin_neg t)

theorem neg_atan2 (hr : 0 ≤ r) (h : x ^ 2 + y ^ 2 = r ^ 2) :
    IsAngle r x y (-CArcMath.atan2 (-y) x) := by
  have hneg := (atan2 hr (h.symm ▸ by rw [neg_sq] : x ^ 2 + (-y) ^ 2 = r ^ 2)).neg
  rwa [neg_neg] at hneg

theorem cos_eq {t : ℝ} (h : IsAngle 1 x y t) : CMath.cos t = x := by
  rw [← one_mul (CMath.cos t), h.1]

theorem sin_eq {t : ℝ} (h : IsAngle 1 x y t) : CMath.sin t = y := by
  rw [← one_mul (CMath.sin t), h.2]

/-- The length may be divided out before. -/
theorem atan2_div (hr : 0 < r) (h : x ^ 2 + y ^ 2 = r ^ 2) :
    IsAngle r x y (CArcMath.atan2 (y / r) (x / r)) := by
  have hunit : (x / r) ^ 2 + (y / r) ^ 2 = 1 ^ 2 := by
    rw [div_pow, div_pow, ← add_div, h, div_self (pow_ne_zero 2 hr.ne'), one_pow]
  have hangle := atan2 zero_le_one hunit
  exact ⟨by rw [hangle.cos_eq, mul_div_cancel₀ _ hr.ne'],
    by rw [hangle.sin_eq, mul_div_cancel₀ _ hr.ne']⟩

end IsAngle

/-- Roll, pitch and yaw are the angles of vectors among the entries. -/
structure ReadFrom (mat : Matrix33 ℝ) (rpy : Vector3 ℝ) : Prop where
  roll : IsAngle (cosPitch mat) (mat 2 2) (mat 2 1) (rpy 0)
  pitch : IsAngle 1 (cosPitch mat) (-mat 2 0) (rpy 1)
  yaw : IsAngle (cosPitch mat) (mat 0 0) (mat 1 0) (rpy 2)

/-- Angles that are read from the entries of a rotation give it back. -/
theorem ReadFrom.rotFromRpy_eq {rpy : Vector3 ℝ} (h : ReadFrom mat rpy)
    (hmat : IsRotation mat) (hcp : cosPitch mat ≠ 0) : rotFromRpy rpy = mat := by
  rw [rotFromRpy, calcRotFromRpy, h.pitch.cos_eq, h.pitch.sin_eq]
  refine rotOfSines_eq hmat hcp ?_ h.yaw.1 h.yaw.2 (neg_neg _) ?_ ?_
  · rw [cosPitch_sq hmat]
    ring
  · rw [mul_comm, h.roll.2]
  · rw [mul_comm, h.roll.1]

namespace Convention

variable {mat : Matrix33 ℝ} (c : Convention)

theorem ite_apply_one (p : Prop) [Decidable p] (x x' y z z' : ℝ) :
    (if p then ![x, y, z] else ![x', y, z']) 1 = y := by
  split <;> rfl

/-- The middle angle is the same in both branches. -/
theorem isAngle_pitch (h : IsRotation mat) :
    IsAngle 1 (cosPitch (c.toXyz mat)) (-c.toXyz mat 2 0) (c.toRpy (c.mat2ea mat) 1) := by
  have hnorm : cosPitch (c.toXyz mat) ^ 2 + (-c.toXyz mat 2 0) ^ 2 = 1 ^ 2 := by
    rw [cosPitch_sq (c.isRotation_toXyz h)]
    ring
  have hpos := IsAngle.atan2 zero_le_one hnorm
  have hneg := IsAngle.neg_atan2 zero_le_one hnorm
  rw [← c.cosineTerm_eq h] at hpos hneg ⊢
  rw [neg_neg] at hneg
  cases c with
  | xyz | yzx =>
    refine Eq.subst (motive := IsAngle _ _ _) ?_ hpos
    exact (ite_apply_one _ _ _ _ _ _).symm
  | xzy | zyx =>
    refine Eq.subst (motive := IsAngle _ _ _) (congrArg Neg.neg ?_) hneg
    exact (ite_apply_one _ _ _ _ _ _).symm

/-- Where the cosine term is not small, the angles are read from the entries. -/
theorem readFrom_of_regular (h : IsRotation mat) (hreg : ¬c.cosineTerm mat < TINY)
    (hpos : 0 < c.cosineTerm mat) : ReadFrom (c.toXyz mat) (c.toRpy (c.mat2ea mat)) := by
  have hpitch := c.isAngle_pitch h
  have hrow := (add_comm _ _).trans (cosPitch_sq_row (c.isRotation_toXyz h))
  have hcol := cosPitch_sq_column (c.isRotation_toXyz h)
  rw [← c.cosineTerm_eq h] at hrow hcol
  refine ⟨?_, hpitch, ?_⟩
  all_goals rw [← c.cosineTerm_eq h]
  · cases c with
    | xyz =>
      rw [toRpy, mat2ea, mat2eaXyz, if_neg (by exact hreg)]
      exact .atan2_div hpos hrow
    | xzy =>
      rw [toRpy, mat2ea, mat2eaXzy, if_neg (by exact hreg)]
      exact .neg_atan2 hpos.le hrow
    | zyx =>
      rw [toRpy, mat2ea, mat2eaZyx, if_neg (by exact hreg)]
      exact .neg_atan2 hpos.le hrow
    | yzx =>
      rw [toRpy, mat2ea, mat2eaYzx, if_neg (by exact hreg)]
      exact .atan2 hpos.le hrow
  · cases c with
    | xyz =>
      rw [toRpy, mat2ea, mat2eaXyz, if_neg (by exact hreg)]
      exact .atan2_div hpos hcol
    | xzy =>
      rw [toRpy, mat2ea, mat2eaXzy, if_neg (by exact hreg)]
      exact .neg_atan2 hpos.le hcol
    | zyx =>
      rw [toRpy, mat2ea, mat2eaZyx, if_neg (by exact hreg)]
      exact .neg_atan2 hpos.le hcol
    | yzx =>
      rw [toRpy, mat2ea, mat2eaYzx, if_neg (by exact hreg)]
      exact .atan2 hpos.le hcol

/-- Where the cosine term is not small, the angles belong to the matrix. -/
theorem rotFromRpy_of_regular (h : IsRotation mat) (hreg : ¬c.cosineTerm mat < TINY)
    (hpos : 0 < c.cosineTerm mat) : rotFromRpy (c.toRpy (c.mat2ea mat)) = c.toXyz mat :=
  (c.readFrom_of_regular h hreg hpos).rotFromRpy_eq (c.isRotation_toXyz h)
    (c.cosineTerm_eq h ▸ hpos.ne')

end Convention

/-! ### Vertical matrices -/

theorem TINY_pos : (0 : ℝ) < TINY := by
  rw [TINY]
  positivity

section Vertical

variable {m : Matrix33 ℝ} {rpy : Vector3 ℝ}

theorem row_of_vertical (h : IsRotation m) (hcp : cosPitch m = 0) :
    m 1 1 ^ 2 + m 1 2 ^ 2 = 1 ^ 2 := by
  have hunit := h.row_mul_row 1 1
  rw [(entries_of_vertical h hcp).1.2.1, one_apply_eq] at hunit
  linear_combination hunit

theorem column_of_vertical (h : IsRotation m) (hcp : cosPitch m = 0) :
    m 1 1 ^ 2 + m 0 1 ^ 2 = 1 ^ 2 := by
  have hunit := h.column_mul_column 1 1
  rw [(entries_of_vertical h hcp).1.2.2.1, one_apply_eq] at hunit
  linear_combination hunit

/-- At the vertical, two entries decide whether the angles belong to the matrix. -/
theorem rotFromRpy_eq_iff_of_vertical (h : IsRotation m) (hcp : cosPitch m = 0)
    (hpitch : IsAngle 1 (cosPitch m) (-m 2 0) (rpy 1)) :
    rotFromRpy rpy = m ↔
      CMath.sin (rpy 0) * -m 2 0 * CMath.sin (rpy 2) + CMath.cos (rpy 0) * CMath.cos (rpy 2) =
          m 1 1 ∧
        CMath.cos (rpy 0) * -m 2 0 * CMath.sin (rpy 2) - CMath.sin (rpy 0) * CMath.cos (rpy 2) =
          m 1 2 := by
  rw [rotFromRpy, calcRotFromRpy, hpitch.cos_eq, hpitch.sin_eq, hcp,
    rotOfSines_eq_iff_of_vertical h hcp]

theorem sin_zero : CMath.sin (0 : ℝ) = 0 :=
  Real.sin_zero

theorem cos_zero : CMath.cos (0 : ℝ) = 1 :=
  Real.cos_zero

/-- Without a yaw the roll is read from the second row. -/
theorem rotFromRpy_eq_iff_of_yaw_eq_zero (h : IsRotation m) (hcp : cosPitch m = 0)
    (hpitch : IsAngle 1 (cosPitch m) (-m 2 0) (rpy 1)) (hyaw : rpy 2 = 0) :
    rotFromRpy rpy = m ↔ CMath.cos (rpy 0) = m 1 1 ∧ -CMath.sin (rpy 0) = m 1 2 := by
  rw [rotFromRpy_eq_iff_of_vertical h hcp hpitch, hyaw, sin_zero, cos_zero, mul_zero, mul_zero,
    mul_one, mul_one, zero_add, zero_sub]

/-- Without a roll the yaw is read from the second row, up to the sine of the pitch. -/
theorem rotFromRpy_eq_iff_of_roll_eq_zero (h : IsRotation m) (hcp : cosPitch m = 0)
    (hpitch : IsAngle 1 (cosPitch m) (-m 2 0) (rpy 1)) (hroll : rpy 0 = 0) :
    rotFromRpy rpy = m ↔ CMath.cos (rpy 2) = m 1 1 ∧ -m 2 0 * CMath.sin (rpy 2) = m 1 2 := by
  rw [rotFromRpy_eq_iff_of_vertical h hcp hpitch, hroll, sin_zero, cos_zero, zero_mul, zero_mul,
    zero_mul, one_mul, one_mul, zero_add, sub_zero]

end Vertical

/-- The sine of the middle angle as a factor does no harm, unless it is `-1`. -/
theorem neg_mul_eq_self_iff {s x : ℝ} (hs : s ^ 2 = 1) : -s * x = x ↔ (s = 1 → x = 0) := by
  rcases eq_or_eq_neg_of_sq_eq_sq s 1 (hs.trans (one_pow 2).symm) with rfl | rfl
  · rw [neg_one_mul, neg_eq_self]
    exact ⟨fun hx _ ↦ hx, fun hx ↦ hx rfl⟩
  · rw [neg_neg, one_mul]
    exact iff_of_true rfl fun hone ↦ absurd hone (by norm_num)

namespace Convention

variable {mat : Matrix33 ℝ} (c : Convention)

/-- At the vertical, the angles belong to the matrix unless the sine of the middle angle spoils the
entry that is read. -/
theorem rotFromRpy_of_vertical (h : IsRotation mat) (hzero : c.cosineTerm mat = 0) :
    rotFromRpy (c.toRpy (c.mat2ea mat)) = c.toXyz mat ↔ (c ≠ zyx → c.Recovers mat) := by
  have hM := c.isRotation_toXyz h
  have hcp := (c.cosineTerm_eq h).symm.trans hzero
  have hsmall : c.cosineTerm mat < TINY := hzero.trans_lt TINY_pos
  have hpitch := c.isAngle_pitch h
  obtain ⟨-, h20, h01, -⟩ := entries_of_vertical hM hcp
  have hrow := row_of_vertical hM hcp
  have hcol := column_of_vertical hM hcp
  cases c with
  | xyz =>
    have hea : mat2eaXyz mat = ![_, _, 0] := if_pos hsmall
    have hroll : IsAngle 1 (mat 1 1) (mat 0 1) (xyz.toRpy (xyz.mat2ea mat) 0) :=
      Eq.subst (motive := IsAngle _ _ _) (congrFun hea 0).symm (.atan2 zero_le_one hcol)
    rw [rotFromRpy_eq_iff_of_yaw_eq_zero hM hcp hpitch (congrFun hea 2), hroll.cos_eq,
      hroll.sin_eq]
    show mat 1 1 = mat 1 1 ∧ -mat 0 1 = mat 1 2 ↔ (xyz ≠ zyx → mat 2 0 = 1 → mat 0 1 = 0)
    rw [show mat 0 1 = mat 1 2 * mat 2 0 from h01, and_iff_right rfl, mul_comm, ← neg_mul,
      imp_iff_right nofun]
    refine (neg_mul_eq_self_iff h20).trans (forall_congr' fun hone ↦ ?_)
    rw [show mat 2 0 = 1 from hone, one_mul]
  | xzy =>
    have hea : mat2eaXzy mat = ![_, _, 0] := if_pos hsmall
    have hroll : IsAngle 1 (mat 2 2) (-mat 2 1) (xzy.toRpy (xzy.mat2ea mat) 0) :=
      Eq.subst (motive := IsAngle _ _ _) (congrArg Neg.neg (congrFun hea 0)).symm
        (IsAngle.atan2 zero_le_one hrow).neg
    have hyaw : xzy.toRpy (xzy.mat2ea mat) 2 = 0 :=
      (congrArg Neg.neg (congrFun hea 2)).trans neg_zero
    rw [rotFromRpy_eq_iff_of_yaw_eq_zero hM hcp hpitch hyaw, hroll.cos_eq, hroll.sin_eq, neg_neg]
    exact iff_of_true ⟨rfl, rfl⟩ fun _ ↦ trivial
  | zyx =>
    have hea : mat2eaZyx mat = ![_, _, 0] := if_pos hsmall
    have hyaw : IsAngle 1 (mat 1 1) (-mat 1 0) (zyx.toRpy (zyx.mat2ea mat) 2) :=
      Eq.subst (motive := IsAngle _ _ _) (congrArg Neg.neg (congrFun hea 0)).symm
        (IsAngle.atan2 zero_le_one hcol).neg
    have hroll : zyx.toRpy (zyx.mat2ea mat) 0 = 0 :=
      (congrArg Neg.neg (congrFun hea 2)).trans neg_zero
    rw [rotFromRpy_eq_iff_of_roll_eq_zero hM hcp hpitch hroll, hyaw.cos_eq, hyaw.sin_eq]
    refine iff_of_true ⟨rfl, ?_⟩ fun hne ↦ absurd rfl hne
    show -mat 0 2 * -mat 1 0 = mat 2 1
    have e10 : mat 1 0 = mat 2 1 * mat 0 2 := h01
    have e02 : mat 0 2 ^ 2 = 1 := h20
    linear_combination mat 0 2 * e10 + mat 2 1 * e02
  | yzx =>
    have hea : mat2eaYzx mat = ![_, _, 0] := if_pos hsmall
    have hyaw : IsAngle 1 (mat 2 2) (mat 1 2) (yzx.toRpy (yzx.mat2ea mat) 2) :=
      Eq.subst (motive := IsAngle _ _ _) (congrFun hea 0).symm (.atan2 zero_le_one hrow)
    rw [rotFromRpy_eq_iff_of_roll_eq_zero hM hcp hpitch (congrFun hea 2), hyaw.cos_eq,
      hyaw.sin_eq]
    rw [imp_iff_right nofun]
    exact (and_iff_right rfl).trans (neg_mul_eq_self_iff h20)

end Convention

/-! ### The slip in the convention zyx -/

section Slip

variable {mat : Matrix33 ℝ} {ea : Vector3 ℝ}

/-- With angles that belong to the matrix, one entry of `ea2mat_zyx` has a sine in place of a
cosine. -/
theorem ea2matZyx_eq_iff (hea : rotFromRpy (Convention.zyx.toRpy ea) = matᵀ) :
    ea2matZyx ea = mat ↔
      CMath.sin (ea 0) * CMath.sin (ea 1) * CMath.sin (ea 2) =
        CMath.sin (ea 0) * CMath.sin (ea 1) * CMath.cos (ea 2) := by
  have hsin : ∀ t : ℝ, CMath.sin (-t) = -CMath.sin t := Real.sin_neg
  have hcos : ∀ t : ℝ, CMath.cos (-t) = CMath.cos t := Real.cos_neg
  have hentry : ∀ i j, rotFromRpy (Convention.zyx.toRpy ea) j i = mat i j := fun i j ↦
    congrFun (congrFun hea j) i
  simp only [Convention.toRpy, rotFromRpy_vec, hsin, hcos] at hentry
  have h21 : CMath.cos (ea 0) * CMath.sin (ea 2) +
      CMath.sin (ea 0) * CMath.sin (ea 1) * CMath.cos (ea 2) = mat 2 1 := by
    rw [← hentry 2 1]
    simp [rotOfSines]
    ring
  constructor
  · intro heq
    have hslip : CMath.cos (ea 0) * CMath.sin (ea 2) +
        CMath.sin (ea 0) * CMath.sin (ea 1) * CMath.sin (ea 2) = mat 2 1 :=
      congrFun (congrFun heq 2) 1
    exact add_left_cancel (hslip.trans h21.symm)
  · intro heq
    ext i j
    fin_cases i <;> fin_cases j
    case «2».«1» => exact (congrArg _ heq).trans h21
    all_goals
      rw [← hentry]
      simp [ea2matZyx, rotOfSines]
      try ring

/-- The slip is harmless where one of three factors is zero. -/
theorem slip_iff {r a b c d sin1 sin2 sin3 cos3 : ℝ} (hr : r ≠ 0) (h1 : r * sin1 = -a)
    (h2 : sin2 = b) (h3 : r * sin3 = -c) (h3' : r * cos3 = d) :
    sin1 * sin2 * sin3 = sin1 * sin2 * cos3 ↔ a = 0 ∨ b = 0 ∨ c + d = 0 := by
  obtain rfl : a = -(r * sin1) := by linear_combination h1
  obtain rfl : c = -(r * sin3) := by linear_combination h3
  subst h2 h3'
  rw [← mul_eq_zero, ← mul_eq_zero]
  constructor
  · intro heq
    linear_combination r ^ 2 * heq
  · intro heq
    refine mul_left_cancel₀ (pow_ne_zero 2 hr) ?_
    linear_combination heq

/-- Where the cosine term is not small, the slip is harmless for a factor that is zero. -/
theorem ea2matZyx_eq_iff_of_regular (h : IsRotation mat)
    (hreg : ¬Convention.zyx.cosineTerm mat < TINY) (hpos : 0 < Convention.zyx.cosineTerm mat) :
    ea2matZyx (mat2eaZyx mat) = mat ↔ mat 0 1 = 0 ∨ mat 0 2 = 0 ∨ mat 1 2 + mat 2 2 = 0 := by
  have hread := Convention.zyx.readFrom_of_regular h hreg hpos
  have hne : cosPitch matᵀ ≠ 0 := (Convention.zyx.cosineTerm_eq h).symm ▸ hpos.ne'
  refine (ea2matZyx_eq_iff (Convention.zyx.rotFromRpy_of_regular h hreg hpos)).trans ?_
  have hyaw : IsAngle (cosPitch matᵀ) (mat 0 0) (-mat 0 1) (mat2eaZyx mat 0) := by
    have hneg := hread.yaw.neg
    rwa [show -Convention.zyx.toRpy (Convention.zyx.mat2ea mat) 2 = _ from neg_neg _] at hneg
  have hpitch : IsAngle 1 (cosPitch matᵀ) (mat 0 2) (mat2eaZyx mat 1) := by
    have hneg := hread.pitch.neg
    rwa [show -Convention.zyx.toRpy (Convention.zyx.mat2ea mat) 1 = _ from neg_neg _,
      neg_neg] at hneg
  have hroll : IsAngle (cosPitch matᵀ) (mat 2 2) (-mat 1 2) (mat2eaZyx mat 2) := by
    have hneg := hread.roll.neg
    rwa [show -Convention.zyx.toRpy (Convention.zyx.mat2ea mat) 0 = _ from neg_neg _] at hneg
  exact slip_iff hne hyaw.2 hpitch.sin_eq hroll.2 hroll.1

/-- At the vertical, the slip is harmless for a first angle whose sine is zero. -/
theorem ea2matZyx_eq_iff_of_vertical (h : IsRotation mat)
    (hzero : Convention.zyx.cosineTerm mat = 0) :
    ea2matZyx (mat2eaZyx mat) = mat ↔ mat 1 0 = 0 := by
  refine (ea2matZyx_eq_iff
    ((Convention.zyx.rotFromRpy_of_vertical h hzero).2 fun hne ↦ absurd rfl hne)).trans ?_
  have hcp : cosPitch matᵀ = 0 := (Convention.zyx.cosineTerm_eq h).symm.trans hzero
  have hea : mat2eaZyx mat = ![_, _, 0] := if_pos (hzero.trans_lt TINY_pos)
  have hsyaw : CMath.sin (mat2eaZyx mat 0) = mat 1 0 :=
    (congrArg CMath.sin (congrFun hea 0)).trans
      (IsAngle.atan2 zero_le_one (column_of_vertical h.transpose hcp)).sin_eq
  have hspitch : CMath.sin (mat2eaZyx mat 1) = mat 0 2 := by
    have hneg := (Convention.zyx.isAngle_pitch h).neg.sin_eq
    rwa [neg_neg, show -Convention.zyx.toRpy (Convention.zyx.mat2ea mat) 1 = _ from neg_neg _]
      at hneg
  have h02 : mat 0 2 ≠ 0 := fun h0 ↦ by
    have hsq : mat 0 2 ^ 2 = 1 := (entries_of_vertical h.transpose hcp).2.1
    norm_num [h0] at hsq
  show CMath.sin (mat2eaZyx mat 0) * CMath.sin (mat2eaZyx mat 1) * CMath.sin (mat2eaZyx mat 2) =
    CMath.sin (mat2eaZyx mat 0) * CMath.sin (mat2eaZyx mat 1) * CMath.cos (mat2eaZyx mat 2) ↔ _
  rw [show mat2eaZyx mat 2 = 0 from congrFun hea 2, sin_zero, cos_zero, hsyaw, hspitch, mul_zero,
    mul_one, eq_comm, mul_eq_zero, or_iff_left h02]

end Slip

/-! ### Which rotations come back -/

namespace Convention

variable {mat : Matrix33 ℝ} (c : Convention)

/-- Away from the vertical the sine of the middle angle is not `-1`. -/
theorem recovers_of_regular (h : IsRotation mat) (hc : c ≠ zyx) (hpos : 0 < c.cosineTerm mat) :
    c.Recovers mat := by
  have hsq := cosPitch_sq (c.isRotation_toXyz h)
  rw [← c.cosineTerm_eq h] at hsq
  have hne : c.toXyz mat 2 0 ≠ 1 := fun hone ↦ by
    rw [hone] at hsq
    nlinarith only [hsq, hpos]
  cases c with
  | xyz => exact fun hone ↦ absurd hone hne
  | xzy => trivial
  | zyx => exact absurd rfl hc
  | yzx => exact fun hone ↦ absurd hone hne

/-- In the conventions other than zyx, a rotation comes back if the angles belong to it. -/
theorem ea2mat_mat2ea_iff_of_ne (hc : c ≠ zyx) :
    c.ea2mat (c.mat2ea mat) = mat ↔ rotFromRpy (c.toRpy (c.mat2ea mat)) = c.toXyz mat := by
  rw [← c.toXyz_ea2mat hc, c.toXyz_injective.eq_iff]

theorem cosineTerm_zyx_eq_zero_iff (h : IsRotation mat) :
    zyx.cosineTerm mat = 0 ↔ mat 0 0 = 0 ∧ mat 0 1 = 0 := by
  rw [zyx.cosineTerm_eq h]
  constructor
  · intro hcp
    obtain ⟨⟨h00, h01, -, -⟩, -⟩ := entries_of_vertical h.transpose hcp
    exact ⟨h00, h01⟩
  · rintro ⟨h00, h01⟩
    have hsq := cosPitch_sq_column h.transpose
    rw [transpose_apply, transpose_apply, h00, h01] at hsq
    exact pow_eq_zero_iff two_ne_zero |>.1 (hsq.symm.trans (by norm_num))

end Convention

/-- A rotation that is vertical in its convention, or has a cosine term that is not small, comes
back from its Euler angles in the convention xzy. In the conventions xyz and yzx it comes back
unless the sine of the middle angle is `-1` and another entry is not zero, and in the convention zyx
it comes back only if the slip is harmless. -/
theorem ea2mat_mat2ea_iff (c : Convention) {mat : Matrix33 ℝ} (h : IsRotation mat)
    (hterm : c.cosineTerm mat = 0 ∨ TINY ≤ c.cosineTerm mat) :
    c.ea2mat (c.mat2ea mat) = mat ↔ c.Recovers mat := by
  by_cases hc : c = .zyx
  · subst hc
    rcases hterm with hzero | hreg
    · have hentries := (Convention.cosineTerm_zyx_eq_zero_iff h).1 hzero
      exact (ea2matZyx_eq_iff_of_vertical h hzero).trans (iff_of_eq (if_pos hentries).symm)
    · have hpos := TINY_pos.trans_le hreg
      have hentries := mt (Convention.cosineTerm_zyx_eq_zero_iff h).2 hpos.ne'
      exact (ea2matZyx_eq_iff_of_regular h hreg.not_gt hpos).trans
        (iff_of_eq (if_neg hentries).symm)
  · rw [c.ea2mat_mat2ea_iff_of_ne hc]
    rcases hterm with hzero | hreg
    · rw [c.rotFromRpy_of_vertical h hzero, imp_iff_right hc]
    · have hpos := TINY_pos.trans_le hreg
      exact iff_of_true (c.rotFromRpy_of_regular h hreg.not_gt hpos)
        (c.recovers_of_regular h hc hpos)

/-- A sixth of a turn about a diagonal. -/
noncomputable def sixthTurn : Matrix33 ℝ :=
  !![2 / 3, -1 / 3, 2 / 3; 2 / 3, 2 / 3, -1 / 3; -1 / 3, 2 / 3, 2 / 3]

theorem isRotation_sixthTurn : IsRotation sixthTurn := by
  refine ⟨?_, ?_⟩
  · ext i j
    fin_cases i <;> fin_cases j <;>
      simp [sixthTurn, mul_apply, Fin.sum_univ_three] <;> norm_num
  · simp [sixthTurn, det_fin_three]
    norm_num

theorem tiny_le_cosineTerm_sixthTurn :
    TINY ≤ Convention.xzy.cosineTerm sixthTurn ∧ TINY ≤ Convention.zyx.cosineTerm sixthTurn := by
  have hsq : (TINY : ℝ) ^ 2 ≤ 2 / 3 * (2 / 3) + -1 / 3 * (-1 / 3) := by norm_num [TINY]
  exact ⟨(Real.le_sqrt' TINY_pos).2 hsq, (Real.le_sqrt' TINY_pos).2 hsq⟩

/-- In the convention xzy a rotation away from the vertical comes back. -/
theorem ea2mat_mat2ea_sixthTurn :
    Convention.xzy.ea2mat (Convention.xzy.mat2ea sixthTurn) = sixthTurn :=
  (ea2mat_mat2ea_iff .xzy isRotation_sixthTurn (.inr tiny_le_cosineTerm_sixthTurn.1)).2 trivial

/-- In the convention zyx even a rotation far from the vertical does not come back. -/
theorem not_ea2mat_mat2ea :
    ¬∀ (c : Convention) (mat : Matrix33 ℝ), IsRotation mat →
      c.cosineTerm mat = 0 ∨ TINY ≤ c.cosineTerm mat → c.ea2mat (c.mat2ea mat) = mat := by
  intro hall
  have hreg := tiny_le_cosineTerm_sixthTurn.2
  have hslip : (-1 / 3 : ℝ) = 0 ∨ (2 / 3 : ℝ) = 0 ∨ (-1 / 3 + 2 / 3 : ℝ) = 0 :=
    (ea2matZyx_eq_iff_of_regular isRotation_sixthTurn hreg.not_gt (TINY_pos.trans_le hreg)).1
      (hall .zyx sixthTurn isRotation_sixthTurn (.inr hreg))
  norm_num at hslip

end OpenHRP.EulerAngles
