import Mathlib.Analysis.SpecialFunctions.Complex.Arg

/-!
# Angles

The constant and the functions of the C library that give an angle, over a field and in exact
arithmetic.
-/

namespace OpenHRP

/-- The constant `M_PI` of the C library. -/
class CPi (K : Type*) [Zero K] [LT K] where
  pi : K
  pi_pos : 0 < pi

/-- The functions of the C library that give an angle. -/
class CAngle (K : Type*) where
  /-- The angle between zero and half a turn with a given cosine. -/
  acos : K → K
  /-- The direction of the point with ordinate `y` and abscissa `x`. -/
  atan2 (y x : K) : K

noncomputable instance : CPi ℝ :=
  ⟨Real.pi, Real.pi_pos⟩

noncomputable instance : CAngle ℝ :=
  ⟨Real.arccos, fun y x ↦ Complex.arg ⟨x, y⟩⟩

end OpenHRP
