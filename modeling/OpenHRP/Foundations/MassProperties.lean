import OpenHRP.Foundations.Rotation

/-!
# Mass, centre of mass and inertia

The mass properties of a rigid body are its mass, its centre of mass and its inertia about the
centre. The inertia about another point is larger by that of the mass in the centre
(`inertiaAbout`), and the union of bodies is the body whose mass, moment of mass and inertia about
every point are the sums (`IsUnion`). A body of positive mass is the only union of its parts
(`IsUnion.unique`), which may be taken about the common centre (`isUnion_of_center`).

A system of point masses realizes a body when it has the same mass, moment of mass and inertia
about every point. The placed system realizes the placed body (`Realizes.place`), and the systems
of several bodies together realize their union (`Realizes.union`).
-/

open Matrix

variable {K : Type*} [CommRing K]

/-- The inertia about the origin of the mass `m` in the point `d`. -/
def inertiaOfPoint (m : K) (d : Fin 3 → K) : Matrix (Fin 3) (Fin 3) K :=
  m • (d ⬝ᵥ d) • (1 : Matrix (Fin 3) (Fin 3) K) - m • vecMulVec d d

/-- The mass properties of a rigid body, with the inertia about the centre of mass. -/
@[ext]
structure MassProperties (K : Type*) where
  mass : K
  center : Fin 3 → K
  inertia : Matrix (Fin 3) (Fin 3) K

namespace MassProperties

/-- The moment of mass. -/
def moment (B : MassProperties K) : Fin 3 → K :=
  B.mass • B.center

/-- The inertia about the point `p`, by the theorem of parallel axes. -/
def inertiaAbout (B : MassProperties K) (p : Fin 3 → K) : Matrix (Fin 3) (Fin 3) K :=
  B.inertia + inertiaOfPoint B.mass (B.center - p)

/-- The body after the map `x ↦ R x + t`. -/
def place (R : Matrix (Fin 3) (Fin 3) K) (t : Fin 3 → K) (B : MassProperties K) :
    MassProperties K :=
  ⟨B.mass, R *ᵥ B.center + t, R * B.inertia * Rᵀ⟩

/-- The body `B` is the union of bodies. -/
structure IsUnion (l : List (MassProperties K)) (B : MassProperties K) : Prop where
  mass : B.mass = (l.map MassProperties.mass).sum
  moment : B.moment = (l.map MassProperties.moment).sum
  inertiaAbout : ∀ p, B.inertiaAbout p = (l.map (inertiaAbout · p)).sum

/-- A system of point masses has the mass, the moment of mass and the inertia of a body. -/
structure Realizes (points : List (K × (Fin 3 → K))) (B : MassProperties K) : Prop where
  mass : B.mass = (points.map Prod.fst).sum
  moment : B.moment = (points.map fun x ↦ x.1 • x.2).sum
  inertiaAbout : ∀ p, B.inertiaAbout p = (points.map fun x ↦ inertiaOfPoint x.1 (x.2 - p)).sum

end MassProperties

/-- The point masses after the map `x ↦ R x + t`. -/
def placePoints (R : Matrix (Fin 3) (Fin 3) K) (t : Fin 3 → K) (points : List (K × (Fin 3 → K))) :
    List (K × (Fin 3 → K)) :=
  points.map fun x ↦ (x.1, R *ᵥ x.2 + t)

/-! ### Inertia about a point -/

theorem inertiaOfPoint_zero (m : K) : inertiaOfPoint m 0 = 0 := by
  rw [inertiaOfPoint, dotProduct_zero, zero_smul, smul_zero, zero_vecMulVec, smul_zero, sub_zero]

/-- The mixed terms of `inertiaOfPoint_add`. -/
def crossInertia (a b : Fin 3 → K) : Matrix (Fin 3) (Fin 3) K :=
  (a ⬝ᵥ b + b ⬝ᵥ a) • (1 : Matrix (Fin 3) (Fin 3) K) - vecMulVec a b - vecMulVec b a

theorem inertiaOfPoint_add (m : K) (a b : Fin 3 → K) :
    inertiaOfPoint m (a + b) =
      inertiaOfPoint m a + crossInertia (m • a) b + inertiaOfPoint m b := by
  rw [inertiaOfPoint, inertiaOfPoint, inertiaOfPoint, crossInertia]
  simp only [add_dotProduct, dotProduct_add, add_vecMulVec, vecMulVec_add, smul_dotProduct,
    dotProduct_smul, smul_vecMulVec, vecMulVec_smul, smul_eq_mul, smul_add, add_smul, smul_smul]
  module

theorem crossInertia_sum (l : List (MassProperties K)) (f : MassProperties K → Fin 3 → K)
    (b : Fin 3 → K) : (l.map fun B ↦ crossInertia (f B) b).sum = crossInertia (l.map f).sum b := by
  induction l with
  | nil => simp [crossInertia]
  | cons B l ih =>
    rw [List.map_cons, List.sum_cons, ih, List.map_cons, List.sum_cons, crossInertia, crossInertia,
      crossInertia]
    simp only [add_dotProduct, dotProduct_add, add_vecMulVec, vecMulVec_add]
    module

/-- A point inertia turns with its point. -/
theorem IsRotation.inertiaOfPoint_mulVec {R : Matrix (Fin 3) (Fin 3) K} (h : IsRotation R) (m : K)
    (d : Fin 3 → K) : inertiaOfPoint m (R *ᵥ d) = R * inertiaOfPoint m d * Rᵀ := by
  have hdot : R *ᵥ d ⬝ᵥ R *ᵥ d = d ⬝ᵥ d := by
    rw [dotProduct_mulVec, vecMul_mulVec, h.transpose_mul_self, vecMul_one]
  have hvec : vecMulVec (R *ᵥ d) (R *ᵥ d) = R * vecMulVec d d * Rᵀ := by
    rw [mul_vecMulVec, vecMulVec_mul, vecMul_transpose]
  rw [inertiaOfPoint, inertiaOfPoint, hdot, hvec, Matrix.mul_sub, Matrix.sub_mul, Matrix.mul_smul,
    Matrix.mul_smul, Matrix.mul_one, Matrix.smul_mul, Matrix.smul_mul, h.mul_transpose,
    Matrix.mul_smul, Matrix.smul_mul]

namespace MassProperties

variable {l l' : List (MassProperties K)} {B B' : MassProperties K}

theorem inertiaAbout_center (B : MassProperties K) : B.inertiaAbout B.center = B.inertia := by
  rw [inertiaAbout, sub_self, inertiaOfPoint_zero, add_zero]

/-! ### The union -/

theorem IsUnion.perm (h : IsUnion l B) (hl : l.Perm l') : IsUnion l' B :=
  ⟨h.mass.trans (hl.map _).sum_eq, h.moment.trans (hl.map _).sum_eq,
    fun p ↦ (h.inertiaAbout p).trans (hl.map _).sum_eq⟩

theorem sum_map_smul_center_sub (l : List (MassProperties K)) (c : Fin 3 → K) :
    (l.map fun A ↦ A.mass • (A.center - c)).sum = (l.map moment).sum - (l.map mass).sum • c := by
  induction l with
  | nil => simp
  | cons A l ih =>
    rw [List.map_cons, List.sum_cons, ih, List.map_cons, List.sum_cons, List.map_cons,
      List.sum_cons, moment]
    module

theorem sum_map_inertiaOfPoint (l : List (MassProperties K)) (d : Fin 3 → K) :
    (l.map fun A ↦ inertiaOfPoint A.mass d).sum = inertiaOfPoint (l.map mass).sum d := by
  induction l with
  | nil => simp [inertiaOfPoint]
  | cons A l ih =>
    rw [List.map_cons, List.sum_cons, ih, List.map_cons, List.sum_cons, inertiaOfPoint,
      inertiaOfPoint, inertiaOfPoint]
    module

/-- The parts may be taken about the common centre. -/
theorem isUnion_of_center (hmass : B.mass = (l.map mass).sum)
    (hmoment : B.moment = (l.map moment).sum)
    (hinertia : B.inertia = (l.map (inertiaAbout · B.center)).sum) : IsUnion l B := by
  refine ⟨hmass, hmoment, fun p ↦ ?_⟩
  have hpart (A : MassProperties K) : A.inertiaAbout p = A.inertiaAbout B.center +
      (crossInertia (A.mass • (A.center - B.center)) (B.center - p) +
        inertiaOfPoint A.mass (B.center - p)) := by
    rw [inertiaAbout, inertiaAbout, ← sub_add_sub_cancel A.center B.center p, inertiaOfPoint_add]
    module
  -- about the common centre the mixed terms cancel
  have hcross : (l.map fun A ↦ A.mass • (A.center - B.center)).sum = 0 := by
    rw [sum_map_smul_center_sub, ← hmoment, ← hmass, moment, sub_self]
  rw [List.map_congr_left fun A _ ↦ hpart A, List.sum_map_add, List.sum_map_add, crossInertia_sum,
    hcross, sum_map_inertiaOfPoint, ← hmass, ← hinertia, inertiaAbout]
  simp [crossInertia]

/-! ### Point masses -/

variable {points : List (K × (Fin 3 → K))} {R : Matrix (Fin 3) (Fin 3) K}

/-- The systems of several bodies together realize their union. -/
theorem Realizes.union {systems : List (List (K × (Fin 3 → K)))}
    (h : List.Forall₂ Realizes systems l) (hunion : IsUnion l B) : Realizes systems.flatten B := by
  have hsum : ∀ {M : Type _} [AddCommMonoid M] (f : K × (Fin 3 → K) → M) (g : MassProperties K → M),
      (∀ points B, Realizes points B → g B = (points.map f).sum) →
        (l.map g).sum = (systems.flatten.map f).sum := by
    intro M _ f g hfg
    clear hunion
    induction h with
    | nil => rfl
    | cons hB _ ih =>
      rw [List.map_cons, List.sum_cons, hfg _ _ hB, ih, List.flatten_cons, List.map_append,
        List.sum_append]
  exact ⟨hunion.mass.trans (hsum _ _ fun points B h ↦ h.mass),
    hunion.moment.trans (hsum _ _ fun points B h ↦ h.moment),
    fun p ↦ (hunion.inertiaAbout p).trans (hsum _ _ fun points B h ↦ h.inertiaAbout p)⟩

theorem mul_list_sum_mul (R S : Matrix (Fin 3) (Fin 3) K) (f : K × (Fin 3 → K) → _)
    (points : List (K × (Fin 3 → K))) :
    R * (points.map f).sum * S = (points.map fun x ↦ R * f x * S).sum := by
  rw [← List.sum_map_mul_left, ← List.sum_map_mul_right]

theorem sum_map_placePoints (R : Matrix (Fin 3) (Fin 3) K) (t : Fin 3 → K)
    (points : List (K × (Fin 3 → K))) :
    ((placePoints R t points).map fun x ↦ x.1 • x.2).sum =
      R *ᵥ (points.map fun x ↦ x.1 • x.2).sum + (points.map Prod.fst).sum • t := by
  induction points with
  | nil => simp [placePoints]
  | cons x points ih =>
    rw [placePoints, List.map_cons, List.map_cons, List.sum_cons, ← placePoints, ih, List.map_cons,
      List.sum_cons, List.map_cons, List.sum_cons, mulVec_add, mulVec_smul]
    module

/-- The inertia of a placed body about a point is that of the body about the preimage, turned. -/
theorem inertiaAbout_place (hR : IsRotation R) (t p : Fin 3 → K) (B : MassProperties K) :
    (B.place R t).inertiaAbout p = R * B.inertiaAbout (Rᵀ *ᵥ (p - t)) * Rᵀ := by
  have hcenter : R *ᵥ B.center + t - p = R *ᵥ (B.center - Rᵀ *ᵥ (p - t)) := by
    rw [mulVec_sub, mulVec_mulVec, hR.mul_transpose, one_mulVec]
    abel
  rw [inertiaAbout, inertiaAbout, Matrix.mul_add, Matrix.add_mul, ← hR.inertiaOfPoint_mulVec,
    ← hcenter]
  rfl

/-- The placed system realizes the placed body. -/
theorem Realizes.place (h : Realizes points B) (hR : IsRotation R) (t : Fin 3 → K) :
    Realizes (placePoints R t points) (B.place R t) := by
  refine ⟨?_, ?_, fun p ↦ ?_⟩
  · rw [placePoints, List.map_map]
    exact h.mass
  · rw [sum_map_placePoints, ← h.moment, ← h.mass, MassProperties.moment, MassProperties.moment,
      mulVec_smul, ← smul_add]
    rfl
  · have hpoint (x : K × (Fin 3 → K)) : inertiaOfPoint x.1 (R *ᵥ x.2 + t - p) =
        R * inertiaOfPoint x.1 (x.2 - Rᵀ *ᵥ (p - t)) * Rᵀ := by
      rw [← hR.inertiaOfPoint_mulVec, mulVec_sub, mulVec_mulVec, hR.mul_transpose, one_mulVec]
      congr 1
      abel
    rw [inertiaAbout_place hR, h.inertiaAbout, placePoints, List.map_map, mul_list_sum_mul]
    exact congrArg List.sum (List.map_congr_left fun x _ ↦ (hpoint x).symm)

end MassProperties

/-! ### Bodies of positive mass -/

namespace MassProperties

variable {K : Type*} [Field K] {l : List (MassProperties K)} {B B' : MassProperties K}

/-- Bodies have one union, unless its mass is zero. -/
theorem IsUnion.unique (h : IsUnion l B) (h' : IsUnion l B') (hne : B.mass ≠ 0) : B = B' := by
  have hmass : B.mass = B'.mass := h.mass.trans h'.mass.symm
  have hcenter : B.center = B'.center := by
    have hmoment := h.moment.trans h'.moment.symm
    rw [MassProperties.moment, MassProperties.moment, ← hmass] at hmoment
    exact smul_right_injective _ hne hmoment
  refine MassProperties.ext hmass hcenter ?_
  rw [← B.inertiaAbout_center, ← B'.inertiaAbout_center, ← hcenter, h.inertiaAbout,
    h'.inertiaAbout]

end MassProperties
