import OpenHRP.Foundations.Literals
import Mathlib.LinearAlgebra.BilinearForm.Properties
import Mathlib.LinearAlgebra.CrossProduct
import Mathlib.LinearAlgebra.Matrix.Symmetric

/-!
# Three-dimensional and spatial vectors in exact arithmetic

Rigid-body mechanics over an arbitrary field `K`. The cross product and the dot product are
Mathlib's; this file adds the matrix `hat a` of the map `a ⨯₃ ·` and its algebra, and the
**spatial** vectors of rigid-body dynamics: pairs of a linear and an angular part, with their
pairing, and symmetric block inertias acting on them.

A spatial inertia is stored as three blocks (`BlockInertia`): top left, bottom left and bottom
right; the top right block is by convention the transpose of the bottom left one. With symmetric
diagonal blocks the action is self-adjoint for the pairing (`BlockInertia.selfAdjoint`), which is
what articulated-body recursions rest on.
-/

open Matrix

variable {K : Type*}

/-! ### The matrix of the cross product -/

section Hat

variable [CommRing K]

/-- The cross product of two vectors. -/
abbrev cross (a b : Fin 3 → K) : Fin 3 → K := a ⨯₃ b

/-- The skew-symmetric matrix of `a ⨯₃ ·`. -/
def hat (a : Fin 3 → K) : Matrix (Fin 3) (Fin 3) K :=
  !![0, -a 2, a 1;
     a 2, 0, -a 0;
     -a 1, a 0, 0]

variable (a x : Fin 3 → K)

theorem hat_mulVec : hat a *ᵥ x = a ⨯₃ x := by
  ext i
  fin_cases i <;> simp [hat, cross_apply, mulVec, dotProduct, Fin.sum_univ_three] <;> ring

theorem hat_transpose : (hat a)ᵀ = -hat a := by
  ext i j
  fin_cases i <;> fin_cases j <;> simp [hat]

theorem hat_zero : hat (0 : Fin 3 → K) = 0 := by
  ext i j
  fin_cases i <;> fin_cases j <;> simp [hat]

theorem hat_neg : hat (-a) = -hat a := by
  ext i j
  fin_cases i <;> fin_cases j <;> simp [hat]

theorem hat_add (a b : Fin 3 → K) : hat (a + b) = hat a + hat b := by
  ext i j
  fin_cases i <;> fin_cases j <;> simp [hat] <;> ring

theorem hat_smul (c : K) (a : Fin 3 → K) : hat (c • a) = c • hat a := by
  ext i j
  fin_cases i <;> fin_cases j <;> simp [hat]

theorem hat_transpose_mulVec : (hat a)ᵀ *ᵥ x = x ⨯₃ a := by
  rw [hat_transpose, neg_mulVec, hat_mulVec, cross_anticomm]

/-- The point-mass part `â âᵀ` of an inertia about a displaced origin. -/
theorem hat_mul_transpose_mulVec : (hat a * (hat a)ᵀ) *ᵥ x = a ⨯₃ (x ⨯₃ a) := by
  rw [← mulVec_mulVec, hat_transpose_mulVec, hat_mulVec]

theorem hat_transpose_mul_mulVec : ((hat a)ᵀ * hat a) *ᵥ x = a ⨯₃ (x ⨯₃ a) := by
  rw [hat_transpose, neg_mul, ← mul_neg, ← hat_transpose, hat_mul_transpose_mulVec]

theorem isSymm_hat_mul_transpose : (hat a * (hat a)ᵀ).IsSymm := by
  rw [Matrix.IsSymm, transpose_mul, transpose_transpose]

theorem isSymm_conj {I : Matrix (Fin 3) (Fin 3) K} (hI : I.IsSymm)
    (R : Matrix (Fin 3) (Fin 3) K) : (R * I * Rᵀ).IsSymm := by
  rw [Matrix.IsSymm, transpose_mul, transpose_mul, transpose_transpose, hI.eq, Matrix.mul_assoc]

/-- A symmetric matrix moves across the dot product. -/
theorem dotProduct_mulVec_comm {A : Matrix (Fin 3) (Fin 3) K} (hA : A.IsSymm)
    (x y : Fin 3 → K) : x ⬝ᵥ A *ᵥ y = A *ᵥ x ⬝ᵥ y := by
  rw [dotProduct_mulVec, ← mulVec_transpose, hA.eq]

end Hat

/-! ### Spatial vectors -/

/-- A spatial vector: its linear part and its angular part. -/
abbrev Spatial (K : Type*) := (Fin 3 → K) × (Fin 3 → K)

section Spatial

variable [CommRing K]

/-- The pairing of spatial vectors: power of a force along a motion. -/
def spatialDot : LinearMap.BilinForm K (Spatial K) :=
  LinearMap.mk₂ K (fun x y ↦ x.1 ⬝ᵥ y.1 + x.2 ⬝ᵥ y.2)
    (fun x x' y ↦ by simp only [Prod.fst_add, Prod.snd_add, add_dotProduct]; ring)
    (fun c x y ↦ by simp only [Prod.smul_fst, Prod.smul_snd, smul_dotProduct, smul_eq_mul]; ring)
    (fun x y y' ↦ by simp only [Prod.fst_add, Prod.snd_add, dotProduct_add]; ring)
    (fun c x y ↦ by simp only [Prod.smul_fst, Prod.smul_snd, dotProduct_smul, smul_eq_mul]; ring)

@[simp]
theorem spatialDot_apply (x y : Spatial K) : spatialDot x y = x.1 ⬝ᵥ y.1 + x.2 ⬝ᵥ y.2 :=
  rfl

/-- The power of `x` along `y`: the pairing as a plain function of two vectors. -/
abbrev spatialPower (x y : Spatial K) : K := spatialDot x y

theorem spatialDot_isSymm : (spatialDot (K := K)).IsSymm :=
  ⟨fun x y ↦ by simp [dotProduct_comm]⟩

/-- A spatial inertia by blocks: top left, bottom left and bottom right. The top right block is
the transpose of the bottom left one. -/
@[ext]
structure BlockInertia (K : Type*) where
  /-- Top left block. -/
  vv : Matrix (Fin 3) (Fin 3) K
  /-- Bottom left block. -/
  wv : Matrix (Fin 3) (Fin 3) K
  /-- Bottom right block. -/
  ww : Matrix (Fin 3) (Fin 3) K

namespace BlockInertia

/-- The action of a block inertia on spatial vectors. -/
def toLin (I : BlockInertia K) : Spatial K →ₗ[K] Spatial K where
  toFun x := (I.vv *ᵥ x.1 + I.wvᵀ *ᵥ x.2, I.wv *ᵥ x.1 + I.ww *ᵥ x.2)
  map_add' x y := by
    simp only [Prod.fst_add, Prod.snd_add, mulVec_add, Prod.mk_add_mk, add_add_add_comm]
  map_smul' c x := by
    simp only [Prod.smul_fst, Prod.smul_snd, mulVec_smul, RingHom.id_apply, Prod.smul_mk,
      smul_add]

@[simp]
theorem toLin_apply (I : BlockInertia K) (x : Spatial K) :
    I.toLin x = (I.vv *ᵥ x.1 + I.wvᵀ *ᵥ x.2, I.wv *ᵥ x.1 + I.ww *ᵥ x.2) :=
  rfl

/-- Symmetric diagonal blocks make the action self-adjoint. -/
theorem selfAdjoint {I : BlockInertia K} (hv : I.vv.IsSymm) (hw : I.ww.IsSymm)
    (x y : Spatial K) : spatialDot x (I.toLin y) = spatialDot (I.toLin x) y := by
  have htop : x.1 ⬝ᵥ I.wvᵀ *ᵥ y.2 = I.wv *ᵥ x.1 ⬝ᵥ y.2 := by
    rw [dotProduct_transpose_mulVec, dotProduct_comm]
  have hbot : x.2 ⬝ᵥ I.wv *ᵥ y.1 = I.wvᵀ *ᵥ x.2 ⬝ᵥ y.1 := by
    rw [← dotProduct_transpose_mulVec, dotProduct_comm]
  simp only [spatialDot_apply, toLin_apply, dotProduct_add, add_dotProduct, htop, hbot,
    dotProduct_mulVec_comm hv, dotProduct_mulVec_comm hw]
  ring

instance : Add (BlockInertia K) :=
  ⟨fun I J ↦ ⟨I.vv + J.vv, I.wv + J.wv, I.ww + J.ww⟩⟩

instance : Zero (BlockInertia K) :=
  ⟨⟨0, 0, 0⟩⟩

variable (I J : BlockInertia K)

@[simp] theorem add_vv : (I + J).vv = I.vv + J.vv := rfl
@[simp] theorem add_wv : (I + J).wv = I.wv + J.wv := rfl
@[simp] theorem add_ww : (I + J).ww = I.ww + J.ww := rfl
@[simp] theorem zero_vv : (0 : BlockInertia K).vv = 0 := rfl
@[simp] theorem zero_wv : (0 : BlockInertia K).wv = 0 := rfl
@[simp] theorem zero_ww : (0 : BlockInertia K).ww = 0 := rfl

instance : AddMonoid (BlockInertia K) where
  add_assoc I J L := by ext1 <;> simp [add_assoc]
  zero_add I := by ext1 <;> simp
  add_zero I := by ext1 <;> simp
  nsmul := nsmulRec

theorem toLin_add : (I + J).toLin = I.toLin + J.toLin := by
  refine LinearMap.ext fun x ↦ Prod.ext ?_ ?_ <;>
    simp only [toLin_apply, LinearMap.add_apply, add_vv, add_wv, add_ww, transpose_add,
      add_mulVec, Prod.fst_add, Prod.snd_add] <;> abel

theorem toLin_zero : (0 : BlockInertia K).toLin = 0 := by
  refine LinearMap.ext fun x ↦ Prod.ext ?_ ?_ <;> simp

theorem toLin_sum (l : List (BlockInertia K)) : l.sum.toLin = (l.map toLin).sum := by
  induction l with
  | nil => exact toLin_zero
  | cons I l ih => rw [List.sum_cons, toLin_add, ih, List.map_cons, List.sum_cons]

end BlockInertia

end Spatial
