import OpenHRP.Foundations.Sweep
import Mathlib.LinearAlgebra.BilinearForm.Properties
import Mathlib.Tactic.LinearCombination

/-!
# Articulated bodies, without coordinates

The recursion behind linear-time forward dynamics, over an arbitrary module `V` with a bilinear
pairing `B` of motions and forces. A node of a tree has an **articulated inertia** `A` and an
**articulated bias force** `p`: whatever its acceleration `a`, the force that must act on the node
for its whole subtree to move is `A a + p`. Through a one-degree-of-freedom joint the child passes
an inertia and a force to its parent (`passedInertia`, `passedForce`) from which the motion of the
joint has been eliminated.

Two facts about one joint carry everything (`joint_force`, `joint_torque`): eliminating the joint
is exact, and the joint acceleration it solves for balances the joint torque. Both use that `A` is
self-adjoint for `B`, and self-adjointness passes on to the parent (`selfAdjoint_passedInertia`).
`force_eq` is the induction over the tree.
-/

namespace ArticulatedBody

variable {ι K V : Type*} [Field K] [AddCommGroup V] [Module K V]

/-- A one-degree-of-freedom joint: its axis, the acceleration it produces without accelerating,
its own inertia and its torque. -/
structure Joint (K V : Type*) where
  /-- The unit motion of the joint. -/
  axis : V
  /-- The velocity-product acceleration. -/
  bias : V
  /-- The inertia of the drive, seen from the joint. -/
  inertia : K
  /-- The torque of the drive. -/
  torque : K

variable (B : LinearMap.BilinForm K V)

/-- `A` moves across the pairing. -/
def SelfAdjoint (A : V →ₗ[K] V) : Prop :=
  ∀ x y, B x (A y) = B (A x) y

/-- The inertia of the joint together with what it carries. -/
def pivot (A : V →ₗ[K] V) (j : Joint K V) : K :=
  B j.axis (A j.axis) + j.inertia

/-- The torque left for accelerating the joint. -/
def drive (A : V →ₗ[K] V) (p : V) (j : Joint K V) : K :=
  j.torque - (B (A j.axis) j.bias + B j.axis p)

/-- The joint acceleration when the parent accelerates by `a`. -/
def jointAccel (A : V →ₗ[K] V) (p : V) (j : Joint K V) (a : V) : K :=
  (drive B A p j - B (A j.axis) a) / pivot B A j

/-- The inertia passed to the parent. -/
def passedInertia (A : V →ₗ[K] V) (j : Joint K V) : V →ₗ[K] V :=
  A - (pivot B A j)⁻¹ • (B (A j.axis)).smulRight (A j.axis)

/-- The bias force passed to the parent. -/
def passedForce (A : V →ₗ[K] V) (p : V) (j : Joint K V) : V :=
  A j.bias + p + (drive B A p j / pivot B A j) • A j.axis

variable {B}

theorem SelfAdjoint.add {A A' : V →ₗ[K] V} (h : SelfAdjoint B A) (h' : SelfAdjoint B A') :
    SelfAdjoint B (A + A') := fun x y ↦ by
  rw [LinearMap.add_apply, LinearMap.add_apply, map_add, map_add, LinearMap.add_apply, h, h']

theorem SelfAdjoint.list_sum {l : List (V →ₗ[K] V)} (h : ∀ A ∈ l, SelfAdjoint B A) :
    SelfAdjoint B l.sum := by
  induction l with
  | nil => intro x y; simp
  | cons A l ih =>
    rw [List.sum_cons]
    exact (h A (by simp)).add (ih fun A' hA' ↦ h A' (by simp [hA']))

variable {A : V →ₗ[K] V}

/-- Passing through a joint keeps an inertia self-adjoint. -/
theorem selfAdjoint_passedInertia (hB : B.IsSymm) (hA : SelfAdjoint B A) (j : Joint K V) :
    SelfAdjoint B (passedInertia B A j) := fun x y ↦ by
  simp only [passedInertia, LinearMap.sub_apply, LinearMap.smul_apply, LinearMap.smulRight_apply,
    map_sub, map_smul, hA x y, smul_eq_mul]
  rw [hB.eq x (A j.axis)]
  ring

/-- **Eliminating a joint is exact**: the force on the child is the passed inertia applied to the
acceleration of the parent, plus the passed force. -/
theorem joint_force (A : V →ₗ[K] V) (p : V) (j : Joint K V) (a : V) :
    A (a + j.bias + jointAccel B A p j a • j.axis) + p =
      passedInertia B A j a + passedForce B A p j := by
  simp only [passedInertia, passedForce, jointAccel, sub_div, sub_smul, map_add, map_sub, map_smul,
    LinearMap.sub_apply, LinearMap.smul_apply, LinearMap.smulRight_apply, smul_smul]
  rw [div_eq_inv_mul (B (A j.axis) a)]
  abel

/-- **The joint acceleration balances the joint torque**: the force on the child, projected on the
axis, is the torque minus what the drive's own inertia takes. -/
theorem joint_torque (hA : SelfAdjoint B A) (p : V) (j : Joint K V) (a : V) (hd : pivot B A j ≠ 0) :
    B j.axis (A (a + j.bias + jointAccel B A p j a • j.axis) + p) =
      j.torque - j.inertia * jointAccel B A p j a := by
  have hsolve : jointAccel B A p j a * pivot B A j = drive B A p j - B (A j.axis) a :=
    div_mul_cancel₀ _ hd
  simp only [map_add, map_smul, hA j.axis, smul_eq_mul] at hsolve ⊢
  rw [pivot, drive, hA j.axis] at hsolve
  linear_combination hsolve

/-- No other joint acceleration balances the joint torque. -/
theorem eq_jointAccel (hA : SelfAdjoint B A) {p : V} {j : Joint K V} {a : V} {q : K}
    (hd : pivot B A j ≠ 0)
    (h : B j.axis (A (a + j.bias + q • j.axis) + p) = j.torque - j.inertia * q) :
    q = jointAccel B A p j a := by
  rw [jointAccel, eq_div_iff hd]
  simp only [map_add, map_smul, hA j.axis, smul_eq_mul] at h
  rw [pivot, drive, hA j.axis]
  linear_combination h

/-! ### The tree -/

variable {children : ι → List ι} {l : List ι}

/-- **The articulated-body invariant.** The force `f i` that moves the whole subtree of `i` (its
own inertia and bias force and the forces passed on to its children) is the articulated inertia of
`i` applied to its acceleration, plus its articulated bias force. -/
theorem force_eq (hl : l.Nodup) (hord : ReadsEarlier children l)
    (hsub : ∀ i ∈ l, ∀ c ∈ children i, c ∈ l) {A I passed : ι → V →ₗ[K] V} {a b f p passedF : ι → V}
    (hA : ∀ i ∈ l, A i = I i + ((children i).map passed).sum)
    (hp : ∀ i ∈ l, p i = b i + ((children i).map passedF).sum)
    (hf : ∀ i ∈ l, f i = I i (a i) + b i + ((children i).map f).sum)
    (hpass : ∀ i ∈ l, ∀ c ∈ children i, A c (a c) + p c = passed c (a i) + passedF c) :
    ∀ i ∈ l, f i = A i (a i) + p i := by
  refine hord.induction hl fun i hi ih ↦ ?_
  have hchildren : (children i).map f =
      (children i).map fun c ↦ passed c (a i) + passedF c :=
    List.map_congr_left fun c hc ↦ by
      rw [ih c hc (hsub i hi c hc), hpass i hi c hc]
  have happly : ((children i).map passed).sum (a i) =
      ((children i).map fun c ↦ passed c (a i)).sum := by
    induction children i with
    | nil => simp
    | cons c cs ihcs => simp [ihcs]
  rw [hf i hi, hchildren, List.sum_map_add, hA i hi, hp i hi, LinearMap.add_apply, happly]
  abel

end ArticulatedBody
