import OpenHRP.Foundations.Rotation
import Mathlib.Analysis.Calculus.Deriv.Add
import Mathlib.Analysis.Calculus.Deriv.Mul
import Mathlib.Analysis.Calculus.Deriv.Prod
import Mathlib.Topology.Algebra.Module.ModuleTopology

/-!
# Twists

The velocity of a rigid transform that depends on a number is a twist: the velocity `vo` of the
point at the origin, and an angular velocity `w` (`HasTwistAt`). A constant transform that comes
after leaves the twist as it is; one that comes before transports it. The twist gives the velocity
of every point that moves along (`HasTwistAt.point`).
-/

open Matrix

variable {x : ℝ}

/-! ### Entries of products -/

section Entries

variable {M : ℝ → Matrix (Fin 3) (Fin 3) ℝ} {M' : Matrix (Fin 3) (Fin 3) ℝ} {v : ℝ → Fin 3 → ℝ}
  {v' : Fin 3 → ℝ}

theorem hasDerivAt_mul_const_entry
    (h : ∀ i k, HasDerivAt (fun y ↦ M y i k) (M' i k) x) (C : Matrix (Fin 3) (Fin 3) ℝ)
    (i k : Fin 3) : HasDerivAt (fun y ↦ (M y * C) i k) ((M' * C) i k) x := by
  simp only [Matrix.mul_apply]
  exact HasDerivAt.fun_sum fun l _ ↦ (h i l).mul_const (C l k)

theorem hasDerivAt_const_mul_entry
    (h : ∀ i k, HasDerivAt (fun y ↦ M y i k) (M' i k) x) (C : Matrix (Fin 3) (Fin 3) ℝ)
    (i k : Fin 3) : HasDerivAt (fun y ↦ (C * M y) i k) ((C * M') i k) x := by
  simp only [Matrix.mul_apply]
  exact HasDerivAt.fun_sum fun l _ ↦ (h l k).const_mul (C i l)

theorem hasDerivAt_mulVec_const
    (h : ∀ i k, HasDerivAt (fun y ↦ M y i k) (M' i k) x) (c : Fin 3 → ℝ) :
    HasDerivAt (fun y ↦ M y *ᵥ c) (M' *ᵥ c) x := by
  refine hasDerivAt_pi.2 fun i ↦ ?_
  simp only [mulVec, dotProduct]
  exact HasDerivAt.fun_sum fun l _ ↦ (h i l).mul_const (c l)

theorem hasDerivAt_const_mulVec (h : HasDerivAt v v' x) (C : Matrix (Fin 3) (Fin 3) ℝ) :
    HasDerivAt (fun y ↦ C *ᵥ v y) (C *ᵥ v') x := by
  refine hasDerivAt_pi.2 fun i ↦ ?_
  simp only [mulVec, dotProduct]
  exact HasDerivAt.fun_sum fun l _ ↦ (hasDerivAt_pi.1 h l).const_mul (C i l)

end Entries

/-! ### The twist of a rigid transform -/

/-- The rigid transform `A` moves with the angular velocity `w`, and with the velocity `vo` at the
origin. -/
structure HasTwistAt (A : ℝ → RigidTransform ℝ) (vo w : Fin 3 → ℝ) (x : ℝ) : Prop where
  p : HasDerivAt (fun y ↦ (A y).p) (vo + cross w (A x).p) x
  R : ∀ i k, HasDerivAt (fun y ↦ (A y).R i k) ((hat w * (A x).R) i k) x

namespace HasTwistAt

variable {A : ℝ → RigidTransform ℝ} {vo w vo' w' : Fin 3 → ℝ}

theorem const (A : RigidTransform ℝ) (x : ℝ) : HasTwistAt (fun _ ↦ A) 0 0 x := by
  refine ⟨?_, fun i k ↦ ?_⟩
  · rw [cross, map_zero, LinearMap.zero_apply, add_zero]
    exact hasDerivAt_const x A.p
  · rw [hat_zero, zero_mul]
    exact hasDerivAt_const x _

theorem rot {R : ℝ → Matrix (Fin 3) (Fin 3) ℝ}
    (h : ∀ i k, HasDerivAt (fun y ↦ R y i k) ((hat w * R x) i k) x) :
    HasTwistAt (fun y ↦ RigidTransform.rot (R y)) 0 w x := by
  refine ⟨?_, h⟩
  rw [RigidTransform.rot_p, cross, map_zero, add_zero]
  exact hasDerivAt_const x 0

theorem trans (b d : Fin 3 → ℝ) (x : ℝ) :
    HasTwistAt (fun y ↦ RigidTransform.trans (b + y • d)) d 0 x := by
  refine ⟨?_, fun i k ↦ ?_⟩
  · rw [cross, map_zero, LinearMap.zero_apply, add_zero]
    exact (((hasDerivAt_id x).smul_const d).const_add b).congr_deriv (one_smul ℝ d)
  · rw [hat_zero, zero_mul]
    exact hasDerivAt_const x _

/-- What comes after does not change the twist. -/
theorem mul_const (h : HasTwistAt A vo w x) (C : RigidTransform ℝ) :
    HasTwistAt (fun y ↦ A y * C) vo w x := by
  refine ⟨?_, fun i k ↦ ?_⟩
  · have heq : vo + cross w (A x * C).p = vo + cross w (A x).p + (hat w * (A x).R) *ᵥ C.p := by
      rw [RigidTransform.mul_p, cross, map_add, ← mulVec_mulVec, hat_mulVec, add_assoc]
    rw [heq]
    exact h.p.add (hasDerivAt_mulVec_const h.R C.p)
  · rw [RigidTransform.mul_R, ← Matrix.mul_assoc]
    exact hasDerivAt_mul_const_entry h.R C.R i k

/-- What comes before transports the twist. -/
theorem const_mul (h : HasTwistAt A vo w x) {C : RigidTransform ℝ} (hC : IsRotation C.R) :
    HasTwistAt (fun y ↦ C * A y) (C.R *ᵥ vo - cross (C.R *ᵥ w) C.p) (C.R *ᵥ w) x := by
  refine ⟨?_, fun i k ↦ ?_⟩
  · have heq : C.R *ᵥ vo - cross (C.R *ᵥ w) C.p + cross (C.R *ᵥ w) (C * A x).p =
        C.R *ᵥ (vo + cross w (A x).p) := by
      simp only [RigidTransform.mul_p, cross, mulVec_add, hC.mulVec_cross, map_add]
      abel
    rw [heq]
    exact (hasDerivAt_const_mulVec h.p C.R).const_add C.p
  · have heq : hat (C.R *ᵥ w) * (C * A x).R = C.R * (hat w * (A x).R) := by
      rw [hC.hat_conj, RigidTransform.mul_R, ← Matrix.mul_assoc, Matrix.mul_assoc _ C.Rᵀ,
        hC.transpose_mul_self, mul_one, Matrix.mul_assoc]
    rw [heq]
    exact hasDerivAt_const_mul_entry h.R C.R i k

/-- The velocity of a point that moves along. -/
theorem point (h : HasTwistAt A vo w x) (c : Fin 3 → ℝ) :
    HasDerivAt (fun y ↦ (A y).p + (A y).R *ᵥ c)
      (vo + cross w ((A x).p + (A x).R *ᵥ c)) x :=
  (h.mul_const ⟨c, 1⟩).p

/-- The angular velocity of a rotation is determined by the motion. -/
theorem eq_of_rotation (h : HasTwistAt A vo w x) (hA : IsRotation (A x).R)
    (h' : ∀ i k, HasDerivAt (fun y ↦ (A y).R i k) ((hat w' * (A x).R) i k) x) : w' = w := by
  have heq : hat w' * (A x).R = hat w * (A x).R := by
    ext i k
    exact (h' i k).unique (h.R i k)
  have hhat : hat w' = hat w := by
    rw [← mul_one (hat w'), ← hA.mul_transpose, ← Matrix.mul_assoc, heq, Matrix.mul_assoc,
      hA.mul_transpose, mul_one]
  ext i
  have h₀ := congrFun₂ hhat 2 1
  have h₁ := congrFun₂ hhat 0 2
  have h₂ := congrFun₂ hhat 1 0
  fin_cases i
  · simpa [hat] using h₀
  · simpa [hat] using h₁
  · simpa [hat] using h₂

end HasTwistAt
