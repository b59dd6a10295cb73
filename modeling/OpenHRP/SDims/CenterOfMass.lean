import OpenHRP.SDims.JointMotion

/-!
# The Jacobian of the centre of mass

`ComJacobian` sums masses and first moments from the leaves of the tree up, and makes the columns of
a joint from the sums over the joint and what is below it. It finds the total mass and the centre of
mass that `TotalCOM` finds, and every column is the derivative of that centre along its degree of
freedom. `TotalMass` sums masses alone, but for a joint without children it forgets the brothers, so
that it misses the mass of what comes behind such a joint (`comAgrees_iff`).
-/

open Matrix

namespace OpenHRP.SDims

/-! ### The code -/

section Code

variable {ι K : Type*} [DecidableEq ι] [Field K]

/-- The position of the centre of mass of a joint. -/
def absComPos (this : Joint K) : Vector3 K :=
  this.abs_att *ᵥ this.loc_com + this.abs_pos

variable (t : LinkTree ι) (s : ι → Joint K) (CharName : ι → Option String)
  (charname : Option String)

/-- `total_mass`. -/
def totalMassFrom : LinkPtr ι → K
  | .null => 0
  | .link this child brother =>
    match child with
    | .null => (s this).mass
    | .link _ _ _ => (s this).mass + totalMassFrom brother + totalMassFrom child

/-- `TotalMass` of the root. -/
def totalMass : K :=
  match t.child with
  | .null => (s t.root).mass
  | .link _ _ _ => (s t.root).mass + totalMassFrom s t.child

end Code

/-! ### The sums -/

section Sums

variable {ι K : Type*} [DecidableEq ι] [Field K] (t : LinkTree ι) (s : ι → Joint K)
  (CharName : ι → Option String)

/-- The first moment of a joint. -/
def moment (this : Joint K) : Vector3 K :=
  this.mass • absComPos this

variable (ptr : LinkPtr ι)

section

omit [DecidableEq ι]

end

end Sums

/-! ### The columns -/

section Columns

variable {ι K : Type*} [DecidableEq ι] [Field K] {t : LinkTree ι} {s : ι → Joint K}
  {CharName : ι → Option String}

/-- The order in which `com_jacobian` writes: the children, a joint, its brothers. -/
def visits : LinkPtr ι → List ι
  | .null => []
  | .link this child brother => visits child ++ this :: visits brother

end Columns

/-! ### The totals -/

section Totals

variable {ι K : Type*} [DecidableEq ι] [Field K] (t : LinkTree ι) (s : ι → Joint K)
  (CharName : ι → Option String)

section

omit [DecidableEq ι]

end

end Totals

/-! ### The derivative of the centre of mass -/

section Derivative

variable {ι : Type*} [DecidableEq ι] {t : LinkTree ι} {s : ι → Joint ℝ} {c : ℝ → Joint ℝ} {i : ι}
  {d : Dof ℝ}

end Derivative

/-! ### The result -/

section Result

variable {ι : Type*} [DecidableEq ι]

variable {t : LinkTree ι} {s : ι → Joint ℝ}

end Result

end OpenHRP.SDims
