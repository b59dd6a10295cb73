import Mathlib.Analysis.SpecialFunctions.Trigonometric.Basic
import Mathlib.LinearAlgebra.Matrix.DotProduct
import OpenHRP.Model.Link

/-!
# Real arithmetic

The functions of the C library in exact arithmetic.
-/

open Matrix

namespace OpenHRP

noncomputable instance : CMath ℝ :=
  ⟨Real.sin, Real.cos, Real.sqrt⟩

theorem dotProduct_self_pos {v : Vector3 ℝ} (h : v ≠ 0) : 0 < v ⬝ᵥ v := by
  refine lt_of_le_of_ne (Finset.sum_nonneg fun k _ ↦ mul_self_nonneg (v k)) fun h0 ↦ h ?_
  exact dotProduct_self_eq_zero.1 h0.symm

end OpenHRP
