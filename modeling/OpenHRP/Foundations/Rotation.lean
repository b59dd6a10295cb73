import OpenHRP.Foundations.SpatialVector
import Mathlib.LinearAlgebra.Matrix.NonsingularInverse
import Mathlib.Tactic.LinearCombination

/-!
# Rotations and rigid transforms

A rotation of three-dimensional space is an orthogonal matrix of determinant one; it preserves the
cross product, so conjugation by it turns `hat a` into `hat` of the rotated vector. A rigid
transform is a translation with a linear part, and rigid transforms form a monoid.
-/

open Matrix

variable {K : Type*} [CommRing K]

/-! ### Rotations -/

/-- An orthogonal matrix of determinant one. -/
structure IsRotation (R : Matrix (Fin 3) (Fin 3) K) : Prop where
  transpose_mul_self : Rᵀ * R = 1
  det : R.det = 1

namespace IsRotation

variable {R S : Matrix (Fin 3) (Fin 3) K}

theorem one : IsRotation (1 : Matrix (Fin 3) (Fin 3) K) :=
  ⟨by rw [transpose_one, one_mul], det_one⟩

theorem mul_transpose (h : IsRotation R) : R * Rᵀ = 1 :=
  mul_eq_one_comm.1 h.transpose_mul_self

theorem mul (hR : IsRotation R) (hS : IsRotation S) : IsRotation (R * S) := by
  refine ⟨?_, by rw [det_mul, hR.det, hS.det, one_mul]⟩
  calc (R * S)ᵀ * (R * S) = Sᵀ * (Rᵀ * R) * S := by
        rw [transpose_mul, Matrix.mul_assoc, Matrix.mul_assoc, Matrix.mul_assoc]
    _ = 1 := by rw [hR.transpose_mul_self, mul_one, hS.transpose_mul_self]

theorem transpose (h : IsRotation R) : IsRotation Rᵀ :=
  ⟨by rw [transpose_transpose, h.mul_transpose], by rw [det_transpose, h.det]⟩

theorem mulVec_injective (h : IsRotation R) {x y : Fin 3 → K} (hxy : R *ᵥ x = R *ᵥ y) : x = y := by
  have hback := congrArg (Rᵀ *ᵥ ·) hxy
  simpa only [mulVec_mulVec, h.transpose_mul_self, one_mulVec] using hback

theorem mul_injective (h : IsRotation R) {X Y : Matrix (Fin 3) (Fin 3) K} (hxy : R * X = R * Y) :
    X = Y := by
  have hback := congrArg (Rᵀ * ·) hxy
  simpa only [← Matrix.mul_assoc, h.transpose_mul_self, one_mul] using hback

/-- The adjugate of a rotation is its inverse. -/
theorem adjugate_eq (h : IsRotation R) : adjugate R = Rᵀ :=
  calc adjugate R = adjugate R * (R * Rᵀ) := by rw [h.mul_transpose, mul_one]
    _ = Rᵀ := by rw [← Matrix.mul_assoc, adjugate_mul, h.det, one_smul, one_mul]

/-- Every entry of a rotation is its own cofactor. -/
theorem entry_eq_adjugate (h : IsRotation R) (i j : Fin 3) : R i j = adjugate R j i := by
  rw [h.adjugate_eq, transpose_apply]

/-- The rows of a rotation are orthonormal. -/
theorem row_mul_row (h : IsRotation R) (i j : Fin 3) :
    R i 0 * R j 0 + R i 1 * R j 1 + R i 2 * R j 2 = (1 : Matrix (Fin 3) (Fin 3) K) i j := by
  rw [← h.mul_transpose, mul_apply, Fin.sum_univ_three]
  rfl

/-- The columns of a rotation are orthonormal. -/
theorem column_mul_column (h : IsRotation R) (i j : Fin 3) :
    R 0 i * R 0 j + R 1 i * R 1 j + R 2 i * R 2 j = (1 : Matrix (Fin 3) (Fin 3) K) i j := by
  rw [← h.transpose_mul_self, mul_apply, Fin.sum_univ_three]
  rfl

/-- The cross product of two images is the image under the matrix of cofactors. -/
theorem cross_mulVec (R : Matrix (Fin 3) (Fin 3) K) (a b : Fin 3 → K) :
    (R *ᵥ a) ⨯₃ (R *ᵥ b) = (adjugate R)ᵀ *ᵥ (a ⨯₃ b) := by
  ext i
  fin_cases i <;>
    simp [cross_apply, mulVec, dotProduct, Fin.sum_univ_three, adjugate_fin_three] <;> ring

/-- A rotation preserves the cross product. -/
theorem mulVec_cross (h : IsRotation R) (a b : Fin 3 → K) :
    R *ᵥ (a ⨯₃ b) = (R *ᵥ a) ⨯₃ (R *ᵥ b) := by
  rw [cross_mulVec, h.adjugate_eq, transpose_transpose]

/-- Conjugation by a rotation rotates the vector of a cross-product matrix. -/
theorem hat_conj (h : IsRotation R) (a : Fin 3 → K) : hat (R *ᵥ a) = R * hat a * Rᵀ := by
  refine ext_of_mulVec_single fun i ↦ ?_
  rw [hat_mulVec, ← mulVec_mulVec, ← mulVec_mulVec, hat_mulVec, h.mulVec_cross,
    mulVec_mulVec, h.mul_transpose, one_mulVec]

end IsRotation

/-! ### Rigid transforms -/

/-- The map `x ↦ p + R x`. -/
@[ext]
structure RigidTransform (K : Type*) where
  /-- The translation. -/
  p : Fin 3 → K
  /-- The linear part. -/
  R : Matrix (Fin 3) (Fin 3) K

namespace RigidTransform

/-- A translation. -/
def trans (p : Fin 3 → K) : RigidTransform K :=
  ⟨p, 1⟩

/-- A map without translation. -/
def rot (R : Matrix (Fin 3) (Fin 3) K) : RigidTransform K :=
  ⟨0, R⟩

instance : Mul (RigidTransform K) :=
  ⟨fun A B ↦ ⟨A.p + A.R *ᵥ B.p, A.R * B.R⟩⟩

instance : One (RigidTransform K) :=
  ⟨⟨0, 1⟩⟩

@[simp] theorem mul_p (A B : RigidTransform K) : (A * B).p = A.p + A.R *ᵥ B.p := rfl

@[simp] theorem mul_R (A B : RigidTransform K) : (A * B).R = A.R * B.R := rfl

@[simp] theorem one_p : (1 : RigidTransform K).p = 0 := rfl

@[simp] theorem one_R : (1 : RigidTransform K).R = 1 := rfl

@[simp] theorem trans_p (p : Fin 3 → K) : (trans p).p = p := rfl

@[simp] theorem trans_R (p : Fin 3 → K) : (trans p).R = 1 := rfl

@[simp] theorem rot_p (R : Matrix (Fin 3) (Fin 3) K) : (rot R).p = 0 := rfl

@[simp] theorem rot_R (R : Matrix (Fin 3) (Fin 3) K) : (rot R).R = R := rfl

instance : Monoid (RigidTransform K) where
  mul_assoc A B C := by
    refine RigidTransform.ext ?_ (Matrix.mul_assoc _ _ _)
    simp only [mul_p, mul_R, mulVec_add, mulVec_mulVec, add_assoc]
  one_mul A := RigidTransform.ext (by simp) (by simp)
  mul_one A := RigidTransform.ext (by simp) (by simp)

/-- Rigid transforms with the same invertible linear part differ by what follows them. -/
theorem mul_right_inj_of_isRotation {A B C : RigidTransform K} (hA : IsRotation A.R) :
    A * B = A * C ↔ B = C := by
  refine ⟨fun h ↦ ?_, fun h ↦ h ▸ rfl⟩
  have hp : A.p + A.R *ᵥ B.p = A.p + A.R *ᵥ C.p := congrArg RigidTransform.p h
  have hR : A.R * B.R = A.R * C.R := congrArg RigidTransform.R h
  exact RigidTransform.ext (hA.mulVec_injective (add_left_cancel hp)) (hA.mul_injective hR)

end RigidTransform
