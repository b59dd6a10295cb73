import OpenHRP.Dynamics.BodyMotion
import Mathlib.LinearAlgebra.Matrix.DotProduct

/-!
# The kinetic energy of a body

The kinetic energy of a motion is a form in the spatial velocities of the links
(`IsMotion.two_mul_kineticEnergy`). A program that gets some joint axes wrong works with other
velocities; `inertiaForm_agrees_iff` says when it gets the energy of the body all the same, and a
symmetric form.
-/

open Matrix

namespace OpenHRP

variable {ι K : Type*} [DecidableEq ι] [Field K]

/-- The kinetic energy of links with the velocities `v` and `w`. -/
def kineticEnergy (t : LinkTree ι) (s : Store ι K) (v w : ι → Vector3 K) : K :=
  (t.links.map fun i ↦
    let dwc := v i + cross (w i) ((s i).R *ᵥ (s i).c)
    (s i).m * (dwc ⬝ᵥ dwc) / 2 + w i ⬝ᵥ ((s i).R * (s i).I * (s i).Rᵀ) *ᵥ w i / 2).sum

/-- The inertia tensor of a link in the world. -/
def worldInertia (link : Link K) : Matrix33 K :=
  link.R * link.I * link.Rᵀ

/-- The pairing of two fields of spatial vectors by the inertias of the links. -/
def inertiaForm (t : LinkTree ι) (s : Store ι K) (U V : ι → Spatial K) : K :=
  (t.links.map fun k ↦ spatialPower (U k) ((linkInertia (s k)).toLin (V k))).sum

section Form

omit [DecidableEq ι] in
theorem spatialDot_linkInertia (link : Link K) (x y : Spatial K) :
    spatialDot x ((linkInertia link).toLin y) =
      link.m * ((x.1 + x.2 ⨯₃ centerOfMass link) ⬝ᵥ (y.1 + y.2 ⨯₃ centerOfMass link)) +
        x.2 ⬝ᵥ worldInertia link *ᵥ y.2 := by
  rw [linkInertia_toLin, spatialDot_apply]
  generalize centerOfMass link = c
  generalize y.1 + y.2 ⨯₃ c = P
  have htriple : x.2 ⬝ᵥ c ⨯₃ (link.m • P) = link.m * (x.2 ⨯₃ c ⬝ᵥ P) := by
    rw [LinearMap.map_smul, dotProduct_smul, smul_eq_mul, triple_product_permutation,
      triple_product_permutation, dotProduct_comm]
  show x.1 ⬝ᵥ link.m • P + x.2 ⬝ᵥ (worldInertia link *ᵥ y.2 + c ⨯₃ (link.m • P)) = _
  rw [dotProduct_smul, smul_eq_mul, dotProduct_add, htriple, add_dotProduct]
  ring

variable {t : LinkTree ι} {s : Store ι K} {U U' V V' : ι → Spatial K}

section

omit [DecidableEq ι]

theorem inertiaForm_congr (hU : ∀ k ∈ t.links, U k = U' k) (hV : ∀ k ∈ t.links, V k = V' k) :
    inertiaForm t s U V = inertiaForm t s U' V' :=
  congrArg List.sum (List.map_congr_left fun k hk ↦ by rw [hU k hk, hV k hk])

theorem inertiaForm_add_left (U U' V : ι → Spatial K) :
    inertiaForm t s (U + U') V = inertiaForm t s U V + inertiaForm t s U' V := by
  rw [inertiaForm, inertiaForm, inertiaForm, ← List.sum_map_add]
  simp only [spatialPower, Pi.add_apply, map_add, LinearMap.add_apply]

theorem inertiaForm_add_right (U V V' : ι → Spatial K) :
    inertiaForm t s U (V + V') = inertiaForm t s U V + inertiaForm t s U V' := by
  rw [inertiaForm, inertiaForm, inertiaForm, ← List.sum_map_add]
  simp only [spatialPower, Pi.add_apply, map_add]

theorem inertiaForm_smul_left (c : K) (U V : ι → Spatial K) :
    inertiaForm t s (c • U) V = c * inertiaForm t s U V := by
  rw [inertiaForm, inertiaForm, ← List.sum_map_mul_left]
  simp only [spatialPower, Pi.smul_apply, map_smul, LinearMap.smul_apply, smul_eq_mul]

theorem inertiaForm_smul_right (c : K) (U V : ι → Spatial K) :
    inertiaForm t s U (c • V) = c * inertiaForm t s U V := by
  rw [inertiaForm, inertiaForm, ← List.sum_map_mul_left]
  simp only [spatialPower, Pi.smul_apply, map_smul, smul_eq_mul]

theorem inertiaForm_sum {γ : Type*} [Fintype γ] (x y : γ → K) (U : γ → ι → Spatial K) :
    inertiaForm t s (∑ d, x d • U d) (∑ e, y e • U e) =
      ∑ d, x d * ∑ e, y e * inertiaForm t s (U d) (U e) := by
  set form := LinearMap.mk₂ K (inertiaForm t s) inertiaForm_add_left inertiaForm_smul_left
    inertiaForm_add_right inertiaForm_smul_right with hform
  show form _ _ = _
  rw [map_sum form, LinearMap.sum_apply]
  refine Finset.sum_congr rfl fun d _ ↦ ?_
  rw [map_smul form, LinearMap.smul_apply, map_sum (form (U d)), smul_eq_mul]
  simp only [map_smul, smul_eq_mul]
  rfl

end

/-- The antisymmetric part of the inertia tensors below a link. -/
def skewInertia (t : LinkTree ι) (s : Store ι K) (i : ι) : Matrix33 K :=
  t.subtreeSum (fun k ↦ worldInertia (s k) - (worldInertia (s k))ᵀ) i

/-- The pairing of spatial vectors by a matrix on their angular parts. -/
def angularPairing (A : Matrix33 K) : Spatial K →ₗ[K] Spatial K →ₗ[K] K :=
  LinearMap.mk₂ K (fun x y ↦ x.2 ⬝ᵥ A *ᵥ y.2)
    (fun x x' y ↦ by rw [Prod.snd_add, add_dotProduct])
    (fun c x y ↦ by rw [Prod.smul_snd, smul_dotProduct])
    (fun x y y' ↦ by rw [Prod.snd_add, mulVec_add, dotProduct_add])
    fun c x y ↦ by rw [Prod.smul_snd, mulVec_smul, dotProduct_smul]

theorem subtreeSum_angularPairing (A : ι → Matrix33 K) (j : ι) (x y : Spatial K) :
    t.subtreeSum (fun k ↦ angularPairing (A k)) j x y = x.2 ⬝ᵥ t.subtreeSum A j *ᵥ y.2 := by
  have hmap := t.map_subtreeSum
    (⟨⟨fun A ↦ x.2 ⬝ᵥ A *ᵥ y.2, by simp⟩, fun A B ↦ by simp [add_mulVec]⟩ : Matrix33 K →+ K) A j
  rw [t.subtreeSum_linear_apply, t.subtreeSum_linear_apply]
  exact hmap.symm

section

omit [DecidableEq ι]

/-- The form is symmetric but for the antisymmetric parts of the inertia tensors. -/
theorem inertiaForm_sub_comm (U V : ι → Spatial K) :
    inertiaForm t s U V - inertiaForm t s V U = (t.links.map fun k ↦
      angularPairing (worldInertia (s k) - (worldInertia (s k))ᵀ) (U k) (V k)).sum := by
  have hlink : ∀ k, spatialDot (U k) ((linkInertia (s k)).toLin (V k)) =
      angularPairing (worldInertia (s k) - (worldInertia (s k))ᵀ) (U k) (V k) +
        spatialDot (V k) ((linkInertia (s k)).toLin (U k)) := fun k ↦ by
    have hskew : angularPairing (worldInertia (s k) - (worldInertia (s k))ᵀ) (U k) (V k) =
        (U k).2 ⬝ᵥ worldInertia (s k) *ᵥ (V k).2 - (V k).2 ⬝ᵥ worldInertia (s k) *ᵥ (U k).2 := by
      show (U k).2 ⬝ᵥ (worldInertia (s k) - (worldInertia (s k))ᵀ) *ᵥ (V k).2 = _
      rw [sub_mulVec, dotProduct_sub, dotProduct_transpose_mulVec]
    rw [hskew, spatialDot_linkInertia, spatialDot_linkInertia,
      dotProduct_comm ((V k).1 + (V k).2 ⨯₃ centerOfMass (s k))]
    ring
  rw [inertiaForm, inertiaForm, List.map_congr_left fun k _ ↦ hlink k, List.sum_map_add,
    add_sub_cancel_right]

/-- A field of pure translations pairs symmetrically. -/
theorem inertiaForm_comm_of_translation (hV : ∀ k ∈ t.links, (V k).2 = 0) :
    inertiaForm t s V U = inertiaForm t s U V := by
  refine congrArg List.sum (List.map_congr_left fun k hk ↦ ?_)
  rw [spatialPower, spatialPower, spatialDot_linkInertia, spatialDot_linkInertia, hV k hk,
    mulVec_zero, dotProduct_zero, zero_dotProduct, dotProduct_comm]

end

theorem subtreeSum_spatialDot (j : ι) (x y : Spatial K) :
    t.subtreeSum (fun k ↦ (spatialDot (K := K)).compl₂ (linkInertia (s k)).toLin) j x y =
      spatialDot x (subtreeInertia t s j y) := by
  have hmap := t.map_subtreeSum ((spatialDot (K := K)) x).toAddMonoidHom
    (fun k ↦ (linkInertia (s k)).toLin y) j
  rw [t.subtreeSum_linear_apply, t.subtreeSum_linear_apply, subtreeInertia_apply]
  exact hmap.symm

end Form

/-! ### Motions -/

/-- The spatial velocities for the velocity `a` of the root and the joint rates `r` along the
axes `S`. -/
def motionField (t : LinkTree ι) (S : ι → Spatial K) (a : Spatial K) (r : ι → K) :
    ι → Spatial K :=
  t.grow a fun i ↦ r i • S i

section Motion

variable {t : LinkTree ι} {s : Store ι K} {rate : ι → K} {v w : ι → Vector3 K}

theorem motionField_add (S : ι → Spatial K) (a a' : Spatial K) (r r' : ι → K) :
    ∀ i ∈ t.links, motionField t S (a + a') (r + r') i =
      motionField t S a r i + motionField t S a' r' i := fun i hi ↦ by
  have hr : (fun i ↦ (r + r') i • S i) = (fun i ↦ r i • S i) + fun i ↦ r' i • S i :=
    funext fun i ↦ add_smul _ _ _
  rw [motionField, motionField, motionField, hr, t.grow_add _ _ _ _ hi]

theorem motionField_single (S : ι → Spatial K) (j : ι) :
    motionField t S 0 (Pi.single j 1) = t.grow 0 (Pi.single j (S j)) := by
  refine congrArg (t.grow 0) (funext fun i ↦ ?_)
  rcases eq_or_ne i j with rfl | hij
  · rw [Pi.single_eq_same, Pi.single_eq_same, one_smul]
  · rw [Pi.single_eq_of_ne hij, Pi.single_eq_of_ne hij, zero_smul]

theorem motionField_const (S : ι → Spatial K) (a : Spatial K) :
    ∀ i ∈ t.links, motionField t S a 0 i = a := fun i hi ↦ by
  have hzero : (fun i ↦ (0 : ι → K) i • S i) = 0 := funext fun i ↦ zero_smul K (S i)
  rw [motionField, hzero, t.grow_const a i hi]

/-- The spatial velocities of a motion. -/
theorem IsMotion.spatialVelocity_eq (h : IsMotion t s rate v w) : ∀ i ∈ t.links,
    OpenHRP.spatialVelocity (s i).p (v i) (w i) = motionField t (treeAxis t s)
      (OpenHRP.spatialVelocity (s t.root).p (v t.root) (w t.root)) rate i :=
  t.eq_grow (V := fun i ↦ OpenHRP.spatialVelocity (s i).p (v i) (w i)) rfl fun p c hpc ↦ by
    rw [h.spatialVelocity hpc, treeAxis, hpc, Option.elim_some]

/-- Every velocity of the root and every joint rates belong to a motion. -/
theorem exists_isMotion (t : LinkTree ι) (s : Store ι K) (rate : ι → K) (v₀ w₀ : Vector3 K) :
    ∃ v w, IsMotion t s rate v w ∧ v t.root = v₀ ∧ w t.root = w₀ := by
  set V := motionField t (treeAxis t s) (spatialVelocity (s t.root).p v₀ w₀) rate with hV
  have hroot : V t.root = spatialVelocity (s t.root).p v₀ w₀ := t.grow_root _ _
  have hchild : ∀ p c, t.parent c = some p → V c = V p + rate c • motionAxis (s p).R (s c) :=
    fun p c hpc ↦ by
      rw [hV, motionField, t.grow_child _ _ hpc, treeAxis, hpc, Option.elim_some]
  refine ⟨fun i ↦ (V i).1 + (V i).2 ⨯₃ (s i).p, fun i ↦ (V i).2,
    ⟨fun p c hpc ↦ ?_, fun p c hpc ↦ ?_⟩, ?_, ?_⟩
  · rw [jointTwist_eq_smul, hchild p c hpc]
    show (V p).1 + rate c • ((jointTwist (s p).R (s c) 1).1 +
        (s c).p ⨯₃ (jointTwist (s p).R (s c) 1).2) +
        ((V p).2 + rate c • (jointTwist (s p).R (s c) 1).2) ⨯₃ (s c).p =
      (V p).1 + (V p).2 ⨯₃ (s p).p + (V p).2 ⨯₃ ((s c).p - (s p).p) +
        rate c • (jointTwist (s p).R (s c) 1).1
    rw [LinearMap.map_sub, LinearMap.map_add₂, LinearMap.map_smul₂,
      ← cross_anticomm (s c).p (jointTwist (s p).R (s c) 1).2]
    module
  · rw [jointTwist_eq_smul, hchild p c hpc]
    rfl
  · show (V t.root).1 + (V t.root).2 ⨯₃ (s t.root).p = v₀
    rw [hroot]
    exact sub_add_cancel _ _
  · show (V t.root).2 = w₀
    rw [hroot]
    rfl

/-- Twice the kinetic energy is the form at the spatial velocities. -/
theorem IsMotion.two_mul_kineticEnergy (h : IsMotion t s rate v w) (h2 : (2 : K) ≠ 0) :
    let V := motionField t (treeAxis t s)
      (OpenHRP.spatialVelocity (s t.root).p (v t.root) (w t.root)) rate
    2 * kineticEnergy t s v w = inertiaForm t s V V := by
  intro V
  have hform : inertiaForm t s V V = inertiaForm t s
      (fun i ↦ OpenHRP.spatialVelocity (s i).p (v i) (w i))
      (fun i ↦ OpenHRP.spatialVelocity (s i).p (v i) (w i)) :=
    inertiaForm_congr (fun k hk ↦ (h.spatialVelocity_eq k hk).symm)
      fun k hk ↦ (h.spatialVelocity_eq k hk).symm
  rw [hform, kineticEnergy, inertiaForm, ← List.sum_map_mul_left]
  refine congrArg List.sum (List.map_congr_left fun k _ ↦ ?_)
  rw [spatialPower, spatialDot_linkInertia, spatialVelocity_centerOfMass]
  show 2 * ((s k).m * (_ ⬝ᵥ _) / 2 + w k ⬝ᵥ worldInertia (s k) *ᵥ w k / 2) = _
  rw [mul_add, mul_div_cancel₀ _ h2, mul_div_cancel₀ _ h2]
  rfl

end Motion

/-! ### Motions with some translations dropped -/

section Agree

variable {t : LinkTree ι} {s : Store ι K} {S T : ι → Spatial K}

/-- Where the axes `S` differ from `T`, `S` has none and `T` is a translation. -/
def DropsTranslations (t : LinkTree ι) (S T : ι → Spatial K) : Prop :=
  ∀ i ∈ t.child.links, S i = T i ∨ (S i = 0 ∧ (T i).2 = 0)

/-- The antisymmetric parts of the inertia tensors cannot be seen by a motion along `S`. -/
structure SkewUnseen (t : LinkTree ι) (s : Store ι K) (S : ι → Spatial K) : Prop where
  root : skewInertia t s t.root = 0
  joint : ∀ j ∈ t.child.links, skewInertia t s j *ᵥ (S j).2 = 0

/-- What `S` drops of `T` gives the subtrees no momentum, and no moment along the joints below. -/
structure DroppedUnseen (t : LinkTree ι) (s : Store ι K) (S T : ι → Spatial K) : Prop where
  momentum : ∀ j ∈ t.child.links, subtreeInertia t s j (T j - S j) = 0
  moment : ∀ j ∈ t.child.links, ∀ l ∈ (t.childPtr j).links,
    spatialDot (S l) (subtreeInertia t s l (T j - S j)) = 0

theorem skewInertia_transpose (i : ι) : (skewInertia t s i)ᵀ = -skewInertia t s i := by
  have hmap := t.map_subtreeSum (Matrix.transposeAddEquiv (Fin 3) (Fin 3) K).toAddMonoidHom
    (fun k ↦ worldInertia (s k) - (worldInertia (s k))ᵀ) i
  have hneg := t.map_subtreeSum (-AddMonoidHom.id (Matrix33 K))
    (fun k ↦ worldInertia (s k) - (worldInertia (s k))ᵀ) i
  refine hmap.trans (Eq.trans ?_ hneg.symm)
  refine t.subtreeSum_congr fun k _ ↦ ?_
  show (worldInertia (s k) - (worldInertia (s k))ᵀ)ᵀ =
    -(worldInertia (s k) - (worldInertia (s k))ᵀ)
  rw [transpose_sub, transpose_transpose, neg_sub]

/-- A vector that the antisymmetric part sends to zero pairs with nothing, on either side. -/
theorem dotProduct_skewInertia {i : ι} {x : Vector3 K} (h : skewInertia t s i *ᵥ x = 0)
    (y : Vector3 K) : x ⬝ᵥ skewInertia t s i *ᵥ y = 0 := by
  rw [← dotProduct_transpose_mulVec, skewInertia_transpose, neg_mulVec, h, neg_zero,
    dotProduct_zero]

/-- The form is symmetric on the motions along `S` if and only if the antisymmetric parts are not
seen. -/
theorem inertiaForm_comm_iff (t : LinkTree ι) (s : Store ι K) (S : ι → Spatial K) :
    (∀ a r a' r', inertiaForm t s (motionField t S a r) (motionField t S a' r') =
      inertiaForm t s (motionField t S a' r') (motionField t S a r)) ↔ SkewUnseen t s S := by
  constructor
  · intro h
    have hzero : ∀ a r a' r', (t.links.map fun k ↦ angularPairing
        (worldInertia (s k) - (worldInertia (s k))ᵀ) (motionField t S a r k)
          (motionField t S a' r' k)).sum = 0 := fun a r a' r' ↦ by
      rw [← inertiaForm_sub_comm, h, sub_self]
    refine ⟨Matrix.ext fun i j ↦ ?_, fun j hj ↦ ?_⟩
    · -- two motions of the root alone
      have hij := hzero (0, Pi.single i 1) 0 (0, Pi.single j 1) 0
      have hconst : ∀ k ∈ t.links, angularPairing (worldInertia (s k) - (worldInertia (s k))ᵀ)
            (motionField t S (0, Pi.single i 1) 0 k) (motionField t S (0, Pi.single j 1) 0 k) =
          angularPairing (worldInertia (s k) - (worldInertia (s k))ᵀ)
            (0, Pi.single i 1) (0, Pi.single j 1) := fun k hk ↦ by
        rw [motionField_const S _ k hk, motionField_const S _ k hk]
      rw [List.map_congr_left hconst, ← t.subtreeSum_root, ← t.subtreeSum_linear_apply,
        ← t.subtreeSum_linear_apply, subtreeSum_angularPairing] at hij
      simpa [skewInertia] using hij
    · -- a motion of the root alone and one of a joint alone
      refine dotProduct_eq_zero _ fun e ↦ ?_
      have hej := hzero (0, e) 0 0 (Pi.single j 1)
      have hconst : ∀ k ∈ t.links, angularPairing (worldInertia (s k) - (worldInertia (s k))ᵀ)
            (motionField t S (0, e) 0 k) (motionField t S 0 (Pi.single j 1) k) =
          angularPairing (worldInertia (s k) - (worldInertia (s k))ᵀ) (0, e)
            (t.grow 0 (Pi.single j (S j)) k) := fun k hk ↦ by
        rw [motionField_const S _ k hk, motionField_single]
      rw [List.map_congr_left hconst, t.sum_apply_grow_single _ hj,
        ← t.subtreeSum_linear_apply (fun k ↦ angularPairing
          (worldInertia (s k) - (worldInertia (s k))ᵀ)) j (0, e), subtreeSum_angularPairing] at hej
      rw [dotProduct_comm]
      exact hej
  · intro h a r a' r'
    rw [← sub_eq_zero, inertiaForm_sub_comm]
    refine t.sum_pairing_eq_zero _ (fun p c hpc ↦ t.grow_child _ _ hpc)
      (fun p c hpc ↦ t.grow_child _ _ hpc) (fun x ↦ ?_) (fun l hl ↦ ?_) (fun j hj x ↦ ?_)
      fun j hj l hl ↦ ?_
    · rw [subtreeSum_angularPairing]
      show x.2 ⬝ᵥ skewInertia t s t.root *ᵥ _ = 0
      rw [h.root, zero_mulVec, dotProduct_zero]
    · rw [subtreeSum_angularPairing]
      show (r l • (S l).2) ⬝ᵥ skewInertia t s l *ᵥ _ = 0
      rw [smul_dotProduct, dotProduct_skewInertia (h.joint l hl), smul_zero]
    · rw [subtreeSum_angularPairing]
      show x.2 ⬝ᵥ skewInertia t s j *ᵥ (r' j • (S j).2) = 0
      rw [mulVec_smul, h.joint j hj, smul_zero, dotProduct_zero]
    · have hl' : l ∈ t.child.links := (t.meets_childPtr j).sublist.subset hl
      rw [subtreeSum_angularPairing]
      show (r l • (S l).2) ⬝ᵥ skewInertia t s l *ᵥ _ = 0
      rw [smul_dotProduct, dotProduct_skewInertia (h.joint l hl'), smul_zero]

/-- What `S` drops of a motion along `T`. -/
theorem motionField_sub (hS : DropsTranslations t S T) (a : Spatial K) (r : ι → K) :
    (∀ k ∈ t.links, motionField t T a r k =
      motionField t S a r k + motionField t (fun i ↦ T i - S i) 0 r k) ∧
      ∀ k ∈ t.links, (motionField t (fun i ↦ T i - S i) 0 r k).2 = 0 := by
  constructor
  · have hT : (fun i ↦ r i • T i) = (fun i ↦ r i • S i) + fun i ↦ r i • (T i - S i) :=
      funext fun i ↦ by rw [Pi.add_apply, ← smul_add, add_sub_cancel]
    intro k hk
    rw [motionField, motionField, motionField, hT, ← t.grow_add _ _ _ _ hk, add_zero]
  · refine t.parent_induction ?_ fun p c hpc ih ↦ ?_
    · rw [motionField, t.grow_root, Prod.snd_zero]
    · have hdrop : (T c - S c).2 = 0 := by
        rcases hS c (t.mem_child_of_parent hpc) with h | ⟨h, h'⟩
        · rw [h, sub_self, Prod.snd_zero]
        · rw [h, sub_zero, h']
      rw [motionField, t.grow_child _ _ hpc, Prod.snd_add, Prod.smul_snd, hdrop,
        smul_zero, add_zero]
      exact ih

/-- What is dropped pairs to zero with motions along axes that see no moment of it. -/
theorem inertiaForm_dropped_eq_zero {Z D : ι → Spatial K}
    (hmomentum : ∀ j ∈ t.child.links, subtreeInertia t s j (D j) = 0)
    (hmoment : ∀ j ∈ t.child.links, ∀ l ∈ (t.childPtr j).links,
      spatialDot (Z l) (subtreeInertia t s l (D j)) = 0) (a : Spatial K) (r r' : ι → K) :
    inertiaForm t s (motionField t Z a r) (motionField t D 0 r') = 0 := by
  refine t.sum_pairing_eq_zero
    (fun k ↦ (spatialDot (K := K)).compl₂ (linkInertia (s k)).toLin)
    (w := fun i ↦ r i • Z i) (y := fun i ↦ r' i • D i)
    (fun p c hpc ↦ t.grow_child _ _ hpc) (fun p c hpc ↦ t.grow_child _ _ hpc)
    (fun x ↦ ?_) (fun l _ ↦ ?_) (fun j hj x ↦ ?_) fun j hj l hl ↦ ?_
  · rw [motionField, t.grow_root, map_zero]
  · rw [motionField, t.grow_root, map_zero]
  · rw [subtreeSum_spatialDot, map_smul, hmomentum j hj, smul_zero, map_zero]
  · rw [subtreeSum_spatialDot, map_smul, map_smul, map_smul, LinearMap.smul_apply,
      hmoment j hj l hl, smul_zero, smul_zero]

/-- Subtree inertias are symmetric where one vector is a translation. -/
theorem spatialDot_subtreeInertia_comm (i : ι) (x : Spatial K) {y : Spatial K} (hy : y.2 = 0) :
    spatialDot x (subtreeInertia t s i y) = spatialDot y (subtreeInertia t s i x) := by
  rw [← subtreeSum_spatialDot, ← subtreeSum_spatialDot, t.subtreeSum_linear_apply,
    t.subtreeSum_linear_apply, t.subtreeSum_linear_apply, t.subtreeSum_linear_apply]
  refine t.subtreeSum_congr fun k _ ↦ ?_
  show spatialDot x ((linkInertia (s k)).toLin y) = spatialDot y ((linkInertia (s k)).toLin x)
  rw [spatialDot_linkInertia, spatialDot_linkInertia, hy, mulVec_zero, dotProduct_zero,
    zero_dotProduct, dotProduct_comm]

theorem eq_zero_of_spatialDot {z : Spatial K} (h : ∀ x, spatialDot x z = 0) : z = 0 := by
  refine Prod.ext (dotProduct_eq_zero _ fun e ↦ ?_) (dotProduct_eq_zero _ fun e ↦ ?_)
  · simpa [dotProduct_comm] using h (e, 0)
  · simpa [dotProduct_comm] using h (0, e)

omit [DecidableEq ι] in
theorem inertiaForm_zero_left {U V : ι → Spatial K} (hU : ∀ k ∈ t.links, U k = 0) :
    inertiaForm t s U V = 0 := by
  rw [inertiaForm, List.map_congr_left fun k hk ↦ by
    rw [hU k hk, spatialPower, map_zero, LinearMap.zero_apply]]
  simp

/-- The momentum of a subtree that moves alone. -/
theorem inertiaForm_const_single {j : ι} (hj : j ∈ t.child.links) (a z : Spatial K) :
    inertiaForm t s (fun _ ↦ a) (t.grow 0 (Pi.single j z)) =
      spatialDot a (subtreeInertia t s j z) := by
  rw [← subtreeSum_spatialDot, t.subtreeSum_linear_apply]
  exact t.sum_apply_grow_single
    (fun k ↦ (spatialDot (K := K)).compl₂ (linkInertia (s k)).toLin a) hj z

/-- The moment of a subtree that moves alone, about a joint within it. -/
theorem inertiaForm_single_single {j l : ι} (hj : j ∈ t.child.links)
    (hl : l ∈ (t.childPtr j).links) (z' z : Spatial K) :
    inertiaForm t s (t.grow 0 (Pi.single l z')) (t.grow 0 (Pi.single j z)) =
      spatialDot z' (subtreeInertia t s l z) := by
  have hl' : l ∈ t.child.links := (t.meets_childPtr j).sublist.subset hl
  have hsum := t.sum_apply_grow_single (fun k ↦ (spatialDot (K := K)).flip
    ((linkInertia (s k)).toLin (t.grow 0 (Pi.single j z) k))) hl' z'
  refine hsum.trans ?_
  rw [t.subtreeSum_linear_apply, ← subtreeSum_spatialDot, t.subtreeSum_linear_apply,
    t.subtreeSum_linear_apply]
  refine t.subtreeSum_congr fun k hk ↦ ?_
  have hkj : k ∈ t.below j := t.mem_below_trans hk (List.mem_cons_of_mem j hl)
  have hkl : k ∈ t.links := (t.below_sublist (List.mem_cons_of_mem _ hl')).subset hk
  show spatialDot z' ((linkInertia (s k)).toLin (t.grow 0 (Pi.single j z) k)) = _
  rw [t.grow_single hj z k hkl, if_pos hkj]
  rfl

/-- The motions along `S` have the energy of those along `T` if and only if what is dropped is not
seen. -/
theorem inertiaForm_eq_iff (hS : DropsTranslations t S T) (h2 : (2 : K) ≠ 0) :
    (∀ a r, inertiaForm t s (motionField t S a r) (motionField t S a r) =
      inertiaForm t s (motionField t T a r) (motionField t T a r)) ↔ DroppedUnseen t s S T := by
  set D : ι → Spatial K := fun i ↦ T i - S i with hD
  have hexpand : ∀ a r, inertiaForm t s (motionField t T a r) (motionField t T a r) =
      inertiaForm t s (motionField t S a r) (motionField t S a r) +
        (2 * inertiaForm t s (motionField t S a r) (motionField t D 0 r) +
          inertiaForm t s (motionField t D 0 r) (motionField t D 0 r)) := fun a r ↦ by
    obtain ⟨hsum, htrans⟩ := motionField_sub hS a r
    have hT : inertiaForm t s (motionField t T a r) (motionField t T a r) =
        inertiaForm t s (motionField t S a r + motionField t D 0 r)
          (motionField t S a r + motionField t D 0 r) :=
      inertiaForm_congr hsum hsum
    rw [hT, inertiaForm_add_left, inertiaForm_add_right, inertiaForm_add_right,
      inertiaForm_comm_of_translation (U := motionField t S a r) htrans]
    ring
  have htranslation : ∀ j ∈ t.child.links, (D j).2 = 0 := fun j hj ↦ by
    show (T j).2 - (S j).2 = 0
    rcases hS j hj with h | ⟨h, h'⟩
    · rw [h, sub_self]
    · rw [h, h', Prod.snd_zero, sub_zero]
  constructor
  · intro h
    have hzero : ∀ a r, 2 * inertiaForm t s (motionField t S a r) (motionField t D 0 r) +
        inertiaForm t s (motionField t D 0 r) (motionField t D 0 r) = 0 := fun a r ↦ by
      have heq := hexpand a r
      rwa [← h a r, left_eq_add] at heq
    -- a joint whose axis is dropped does not show in the motions along `S`
    have hdropped : ∀ j, S j = 0 → ∀ a r, (∀ k ∈ t.links, motionField t D 0 r k = 0) →
        inertiaForm t s (motionField t S a r) (motionField t D 0 (Pi.single j 1)) = 0 := by
      intro j hj
      have hSj : ∀ a r, ∀ k ∈ t.links, motionField t S a (r + Pi.single j 1) k =
          motionField t S a r k := fun a r k hk ↦ by
        rw [← add_zero a, motionField_add S a 0 r _ k hk, motionField_single, hj, Pi.single_zero,
          t.grow_const 0 k hk, add_zero, add_zero]
      have hDj : ∀ r, (∀ k ∈ t.links, motionField t D 0 r k = 0) → ∀ k ∈ t.links,
          motionField t D 0 (r + Pi.single j 1) k = motionField t D 0 (Pi.single j 1) k :=
        fun r hr k hk ↦ by
          rw [← add_zero (0 : Spatial K), motionField_add D 0 0 r _ k hk, hr k hk, zero_add,
            add_zero]
      have hpair : ∀ a r, (∀ k ∈ t.links, motionField t D 0 r k = 0) →
          2 * inertiaForm t s (motionField t S a r) (motionField t D 0 (Pi.single j 1)) +
            inertiaForm t s (motionField t D 0 (Pi.single j 1))
              (motionField t D 0 (Pi.single j 1)) = 0 := fun a r hr ↦ by
        rw [← hzero a (r + Pi.single j 1), inertiaForm_congr (hSj a r) (hDj r hr),
          inertiaForm_congr (hDj r hr) (hDj r hr)]
      have hrest := hpair 0 0 (motionField_const D 0)
      rw [inertiaForm_zero_left (motionField_const S 0), mul_zero, zero_add] at hrest
      intro a r hr
      have hall := hpair a r hr
      rw [hrest, add_zero] at hall
      exact (mul_eq_zero.1 hall).resolve_left h2
    refine ⟨fun j hj ↦ ?_, fun j hj l hl ↦ ?_⟩
    · rcases hS j hj with hST | ⟨hSj, -⟩
      · rw [hST, sub_self, map_zero]
      · refine eq_zero_of_spatialDot fun a ↦ ?_
        rw [← inertiaForm_const_single hj a (D j), ← hdropped j hSj a 0 (motionField_const D 0),
          motionField_single]
        exact inertiaForm_congr (fun k hk ↦ (motionField_const S a k hk).symm) fun _ _ ↦ rfl
    · have hl' : l ∈ t.child.links := (t.meets_childPtr j).sublist.subset hl
      rcases hS l hl' with hST | ⟨hSl, -⟩
      · rcases hS j hj with hSTj | ⟨hSj, -⟩
        · rw [hSTj, sub_self, map_zero, map_zero]
        · have hDl : D l = 0 := by
            show T l - S l = 0
            rw [hST, sub_self]
          have hfield : ∀ k ∈ t.links, motionField t D 0 (Pi.single l 1) k = 0 := fun k hk ↦ by
            rw [motionField_single, hDl, Pi.single_zero, t.grow_const 0 k hk]
          rw [← inertiaForm_single_single hj hl (S l) (D j),
            ← hdropped j hSj 0 (Pi.single l 1) hfield, motionField_single, motionField_single]
      · rw [hSl, map_zero, LinearMap.zero_apply]
  · intro h a r
    have hDD : ∀ j ∈ t.child.links, ∀ l ∈ (t.childPtr j).links,
        spatialDot (D l) (subtreeInertia t s l (D j)) = 0 := fun j hj l hl ↦ by
      have hl' : l ∈ t.child.links := (t.meets_childPtr j).sublist.subset hl
      rw [spatialDot_subtreeInertia_comm l (D l) (htranslation j hj), h.momentum l hl', map_zero]
    rw [hexpand, inertiaForm_dropped_eq_zero h.momentum h.moment,
      inertiaForm_dropped_eq_zero h.momentum hDD, mul_zero, add_zero, add_zero]

end Agree

end OpenHRP
