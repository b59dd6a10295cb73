import OpenHRP.Foundations.SpatialVector
import OpenHRP.Model.LinkTree

/-!
# Links

The data of one rigid link: how it is joined to its parent, where it is and how it moves, and the
quantities the dynamics passes leave in it. The fields carry the names of the C++ class; pointers
and indices are not among them, they belong to the shape (`LinkTree`).

Arithmetic is exact: everything is generic in a field `K`. The C library functions `sin`, `cos`
and `sqrt` are operations of the class `CMath` with no law attached, so that a result holds for
the real functions and a run can be evaluated with rational ones.
-/

open Matrix

namespace OpenHRP

/-- Three-dimensional vectors. -/
abbrev Vector3 (K : Type*) := Fin 3 → K

/-- Three-by-three matrices. -/
abbrev Matrix33 (K : Type*) := Matrix (Fin 3) (Fin 3) K

/-- The functions of the C mathematics library the programs call. -/
class CMath (K : Type*) where
  /-- Sine. -/
  sin : K → K
  /-- Cosine. -/
  cos : K → K
  /-- Square root. -/
  sqrt : K → K

/-- Rational stand-ins for evaluating a body whose joints are all at zero: they agree with the real
functions at zero. -/
instance : CMath ℚ :=
  ⟨fun _ ↦ 0, fun _ ↦ 1, id⟩

/-- The length of a vector. -/
def Vector3.norm {K : Type*} [CommRing K] [CMath K] (v : Vector3 K) : K :=
  CMath.sqrt (v ⬝ᵥ v)

section Rodrigues

variable {K : Type*} [CommRing K] [CMath K]

/-- `E + a_hat*sin(q) + a_hat*a_hat*(1-cos(q))`, entry by entry. -/
def calcRodrigues (axis : Vector3 K) (q : K) : Matrix33 K :=
  let sth := CMath.sin q
  let vth := 1 - CMath.cos q
  let ax := axis 0
  let ay := axis 1
  let az := axis 2
  let axx := ax * ax * vth
  let ayy := ay * ay * vth
  let azz := az * az * vth
  let axy := ax * ay * vth
  let ayz := ay * az * vth
  let azx := az * ax * vth
  let ax := ax * sth
  let ay := ay * sth
  let az := az * sth
  !![1 - azz - ayy, -az + axy, ay + azx;
     az + axy, 1 - azz - axx, -ax + ayz;
     -ay + azx, ax + ayz, 1 - ayy - axx]

/-- The rotation by `q` about `axis`. -/
def rodrigues (axis : Vector3 K) (q : K) : Matrix33 K :=
  calcRodrigues axis q

/-- A rotation fixes its axis, of whatever length. -/
@[simp]
theorem rodrigues_mulVec_axis (a : Vector3 K) (q : K) : rodrigues a q *ᵥ a = a := by
  ext i
  fin_cases i <;>
    simp [rodrigues, calcRodrigues, mulVec, dotProduct, Fin.sum_univ_three] <;> ring

/-- The entries implement the formula they are documented by. -/
theorem rodrigues_eq (a : Vector3 K) (q : K) :
    rodrigues a q = 1 + CMath.sin q • hat a + (1 - CMath.cos q) • (hat a * hat a) := by
  ext i j
  fin_cases i <;> fin_cases j <;> simp [rodrigues, calcRodrigues, hat] <;> ring

end Rodrigues

/-- How a link is joined to its parent. -/
inductive JointType where
  /-- Fixed joint (0 dof). -/
  | fixedJoint
  /-- 6-DOF root link. -/
  | freeJoint
  /-- Rotational joint (1 dof). -/
  | rotationalJoint
  /-- Translational joint (1 dof). -/
  | slideJoint
  deriving DecidableEq, Repr

/-- The data of a link. -/
structure Link (K : Type*) where
  /-- The `jointId` value written in a model file. -/
  jointId : ℤ
  jointType : JointType
  /-- Position. -/
  p : Vector3 K
  /-- Internal world attitude. -/
  R : Matrix33 K
  /-- Linear velocity. -/
  v : Vector3 K
  /-- Angular velocity. -/
  w : Vector3 K
  /-- Linear acceleration. -/
  dv : Vector3 K
  /-- Derivative of `w`. -/
  dw : Vector3 K
  /-- Joint value. -/
  q : K
  /-- Joint velocity. -/
  dq : K
  /-- Joint acceleration. -/
  ddq : K
  /-- Joint torque. -/
  u : K
  /-- Rotational joint axis (self local). -/
  a : Vector3 K
  /-- Translation joint axis (self local). -/
  d : Vector3 K
  /-- Relative position (parent local). -/
  b : Vector3 K
  /-- Mass. -/
  m : K
  /-- Inertia tensor (self local, around `c`). -/
  I : Matrix33 K
  /-- Centre of mass (self local). -/
  c : Vector3 K
  /-- `R * c + p`. -/
  wc : Vector3 K
  /-- Translation elements of spatial velocity. -/
  vo : Vector3 K
  /-- Derivative of `vo`. -/
  dvo : Vector3 K
  /-- Unit angular velocity generated by the joint (world). -/
  sw : Vector3 K
  /-- Unit spatial velocity generated by the joint (world). -/
  sv : Vector3 K
  /-- `dsv * dq` (cross velocity term). -/
  cv : Vector3 K
  /-- `dsw * dq` (cross velocity term). -/
  cw : Vector3 K
  /-- External force. -/
  fext : Vector3 K
  /-- External torque (around the world origin). -/
  tauext : Vector3 K
  /-- Bottom right block of the articulated inertia. -/
  Iww : Matrix33 K
  /-- Bottom left block (transpose of top right block) of the articulated inertia. -/
  Iwv : Matrix33 K
  /-- Top left block of the articulated inertia. -/
  Ivv : Matrix33 K
  /-- Bias force (linear element). -/
  pf : Vector3 K
  /-- Bias force (torque element). -/
  ptau : Vector3 K
  /-- Top block of `Ia*s`. -/
  hhv : Vector3 K
  /-- Bottom block of `Ia*s`. -/
  hhw : Vector3 K
  uu : K
  /-- `Ia*s*s^T`. -/
  dd : K
  /-- Equivalent rotor inertia. -/
  Jm2 : K
  /-- Mass of subtree. -/
  subm : K
  /-- Sum of `m * wc` of subtree. -/
  submwc : Vector3 K

/-- A fresh link: a fixed joint without ID, as the constructor makes it. What the constructor leaves
unset is zero here, and the attitude is the identity. -/
def Link.blank {K : Type*} [Zero K] [One K] : Link K where
  jointId := -1
  jointType := .fixedJoint
  p := 0
  R := 1
  v := 0
  w := 0
  dv := 0
  dw := 0
  q := 0
  dq := 0
  ddq := 0
  u := 0
  a := 0
  d := 0
  b := 0
  m := 0
  I := 0
  c := 0
  wc := 0
  vo := 0
  dvo := 0
  sw := 0
  sv := 0
  cv := 0
  cw := 0
  fext := 0
  tauext := 0
  Iww := 0
  Iwv := 0
  Ivv := 0
  pf := 0
  ptau := 0
  hhv := 0
  hhw := 0
  uu := 0
  dd := 0
  Jm2 := 0
  subm := 0
  submwc := 0

/-- The data of all links of a world of links. -/
abbrev Store (ι K : Type*) := ι → Link K

end OpenHRP
