import OpenHRP.Foundations.DictionaryExistence
import OpenHRP.SDims.LCPInverse
import Mathlib.LinearAlgebra.Matrix.Nondegenerate

/-!
# The pivot with and without the old inverse

`Pivot` computes a column and the right-hand side after the pivots that the labels say. One version
updates the inverse of the block of the pivots and multiplies by it, the other one solves the linear
equations of the block anew. They have the same results (`pivot_eq_pivotFromScratch`).
-/

namespace OpenHRP.LCP

variable {n : ℕ} {K : Type*} [Field K]

/-! ### The two versions -/

section Code

/-- `lineq_svd` for a square matrix. It divides by a square where there is one row. -/
def lineqSvd (dgelss : ℕ → (ℕ → ℕ → K) → (ℕ → ℕ → K) → ℕ → ℕ → K) (k : ℕ) (A b : ℕ → ℕ → K) :
    ℕ → ℕ → K :=
  if k = 1 then fun _ j ↦ A 0 0 / (A 0 0 * A 0 0) * b 0 j else dgelss k A b

variable (M : Matrix (Fin n) (Fin (n + 1)) K) (q : Fin n → K)

/-- `b`, which has a column for `m_jr` and one for `q_new`. -/
def rightHandSide (L : Labels n) (jr : Fin (n + 1)) (i j : ℕ) : K :=
  if j = 0 then
    if (L.z2a jr).isSome then if countPiv L.z2a jr = some i then 1 else 0
    else L.aPiv[i]?.elim 0 fun a ↦ (L.z2g jr).elim 0 (M a)
  else subVector q L.aPiv i

/-- The loops that write `m_jr`, from the first column of `x`. -/
def columnFrom (L : Labels n) (jr : Fin (n + 1)) (x : ℕ → K) (i : Fin n) : K :=
  let mPiv := fun t ↦ if (L.z2a jr).isSome then x t else -x t
  match countPiv L.w2g i with
  | some t => mPiv t
  | none =>
    (L.w2a i).elim 0 fun nai ↦
      (if (L.z2a jr).isSome then 0 else (L.z2g jr).elim 0 (M nai)) +
        dot L.gPiv.length (fun t ↦ L.gPiv[t]?.elim 0 (M nai)) mPiv

/-- The loops that write `q_new`, from the second column of `x`. -/
def constFrom (L : Labels n) (x : ℕ → K) (i : Fin n) : K :=
  match countPiv L.w2g i with
  | some t => -x t
  | none =>
    (L.w2a i).elim 0 fun nai ↦
      q nai + dot L.gPiv.length (fun t ↦ L.gPiv[t]?.elim 0 (M nai)) fun t ↦ -x t

/-- `Pivot` from scratch: `m_jr` and `q_new`. -/
def pivotFromScratch (dgelss : ℕ → (ℕ → ℕ → K) → (ℕ → ℕ → K) → ℕ → ℕ → K) (L : Labels n)
    (jr : Fin (n + 1)) : (Fin n → K) × (Fin n → K) :=
  let Maa := subMatrix M L.aPiv L.gPiv
  let x := lineqSvd dgelss L.gPiv.length Maa (rightHandSide M q L jr)
  (columnFrom M L jr (x · 0), constFrom M q L (x · 1))

/-- `Pivot` with `oldMinv`, where `w` has held `ys` and `z` has held `yr`: `newMinv`, `m_jr` and
`q_new`. -/
def pivot (oldMinv : ℕ → ℕ → K) (old : Labels n) (ys2a : Option (Fin n))
    (ys2g : Option (Fin (n + 1))) (yr2a : Option (Fin n)) (yr2g : Option (Fin (n + 1)))
    (L : Labels n) (jr : Fin (n + 1)) : (ℕ → ℕ → K) × (Fin n → K) × (Fin n → K) :=
  let Minv := newMinv M oldMinv old L ys2a ys2g yr2a yr2g
  (Minv, columnOf M Minv L jr, constOf M q Minv L)

end Code

/-! ### Blocks as matrices -/

section Square

variable {k : ℕ} {A B : ℕ → ℕ → K}

/-- The entries of a matrix with `k` rows and columns. -/
def square (k : ℕ) (A : ℕ → ℕ → K) : Matrix (Fin k) (Fin k) K := fun i j ↦ A i j

theorem square_mul (k : ℕ) (A B : ℕ → ℕ → K) : square k A * square k B = square k (mul k A B) := by
  ext i j
  rw [Matrix.mul_apply, square, mul, Finset.sum_range]
  rfl

theorem square_eq_one (h : ∀ i < k, ∀ j < k, A i j = if i = j then 1 else 0) : square k A = 1 := by
  ext i j
  rw [square, h i i.isLt j j.isLt, Matrix.one_apply]
  exact if_congr Fin.ext_iff.symm rfl rfl

/-- `B` is the inverse of a block `A`. -/
def IsInverse (k : ℕ) (A B : ℕ → ℕ → K) : Prop :=
  square k A * square k B = 1

theorem IsInverse.isUnit_det (h : IsInverse k A B) : IsUnit (square k A).det :=
  Matrix.isUnit_det_of_right_inverse h

theorem IsInverse.unique {B' : ℕ → ℕ → K} (h : IsInverse k A B) (h' : IsInverse k A B') {i j : ℕ}
    (hi : i < k) (hj : j < k) : B i j = B' i j := by
  have hinv : square k B * square k A = 1 := mul_eq_one_comm.1 h
  have heq : square k B = square k B' := left_inv_eq_right_inv hinv h'
  exact congrFun (congrFun heq ⟨i, hi⟩) ⟨j, hj⟩

/-- The solution of linear equations is the product with the inverse. -/
theorem IsInverse.mul_eq {b x : ℕ → ℕ → K} (h : IsInverse k A B) {j : ℕ}
    (hx : ∀ i < k, mul k A x i j = b i j) {i : ℕ} (hi : i < k) : x i j = mul k B b i j := by
  have hinv : square k B * square k A = 1 := mul_eq_one_comm.1 h
  have hcol : (square k A).mulVec (fun t ↦ x t j) = fun t : Fin k ↦ b t j := by
    funext t
    rw [← hx t t.isLt, mul, Finset.sum_range]
    rfl
  have hprod := congrFun (congrArg (square k B).mulVec hcol) ⟨i, hi⟩
  rw [Matrix.mulVec_mulVec, hinv, Matrix.one_mulVec] at hprod
  rw [mul, Finset.sum_range]
  exact hprod

end Square

/-- `dgelss` solves linear equations with a matrix that has an inverse. -/
def SolvesEquations (dgelss : ℕ → (ℕ → ℕ → K) → (ℕ → ℕ → K) → ℕ → ℕ → K) : Prop :=
  ∀ k A b, IsUnit (square k A).det → ∀ i < k, ∀ j, mul k A (dgelss k A b) i j = b i j

theorem SolvesEquations.lineqSvd {dgelss : ℕ → (ℕ → ℕ → K) → (ℕ → ℕ → K) → ℕ → ℕ → K}
    (h : SolvesEquations dgelss) {k : ℕ} {A : ℕ → ℕ → K} (hA : IsUnit (square k A).det)
    (b : ℕ → ℕ → K) {i : ℕ} (hi : i < k) (j : ℕ) :
    mul k A (lineqSvd dgelss k A b) i j = b i j := by
  rw [LCP.lineqSvd]
  split
  · next hk =>
    subst hk
    obtain rfl : i = 0 := by omega
    have hne : A 0 0 ≠ 0 := by
      rw [Matrix.det_fin_one] at hA
      exact hA.ne_zero
    rw [mul, Finset.sum_range_one]
    field_simp
  · exact h k A b hA i hi j

/-! ### Blocks and dictionaries -/

section Blocks

variable {M : Matrix (Fin n) (Fin (n + 1)) K} {q : Fin n → K} {L : Labels n} {e : Var n ≃ Var n}
  {js : Fin n} {jr : Fin (n + 1)} {A : ℕ → ℕ → K}

/-- The entries of a dictionary are the inverse of the block. -/
theorem isInverse_inverseOf (hL : L.Places e) (D : Dictionary M q e) :
    IsInverse L.gPiv.length (subMatrix M L.aPiv L.gPiv) (inverseOf L D) := by
  rw [IsInverse, square_mul]
  exact square_eq_one fun i hi j hj ↦ mul_block_inverseOf hL D hi hj

/-- An inverse of the block has the entries of the dictionary, and no other matrix has. -/
theorem holdsInverse_iff (hL : L.Places e) (D : Dictionary M q e) :
    HoldsInverse L D A ↔ IsInverse L.gPiv.length (subMatrix M L.aPiv L.gPiv) A := by
  have hblock := isInverse_inverseOf hL D
  have hentry {t t' : ℕ} {g : Fin (n + 1)} {a : Fin n} (hg : L.gPiv[t]? = some g)
      (ha : L.aPiv[t']? = some a) : inverseOf L D t t' = D.entry (.inr g) (.inl a) := by
    rw [inverseOf, hg, ha, Option.elim_some, Option.elim_some]
  constructor
  · intro h
    have heq : square L.gPiv.length A = square L.gPiv.length (inverseOf L D) := by
      ext i j
      have hj : j < L.aPiv.length := by rw [hL.length_aPiv]; exact j.isLt
      have hg := List.getElem?_eq_getElem i.isLt
      have ha := List.getElem?_eq_getElem hj
      exact (h i j _ _ hg ha).trans (hentry hg ha).symm
    rwa [IsInverse, heq]
  · intro h t t' g a hg ha
    have ht := (List.getElem?_eq_some_iff.1 hg).1
    have ht' := (List.getElem?_eq_some_iff.1 ha).1
    rw [h.unique hblock ht (hL.length_aPiv ▸ ht'), hentry hg ha]

/-- With an invertible block the nonbasic variables determine a solution. -/
theorem determines_of_isUnit (hL : L.Places e)
    (h : IsUnit (square L.gPiv.length (subMatrix M L.aPiv L.gPiv)).det) : Determines M e := by
  intro x hx hzero
  have hout {v : Var n} (hv : ¬InW e v) : x v = 0 := by
    obtain ⟨j, rfl⟩ := not_inW_iff.1 hv
    exact hzero j
  -- the rows of the equations, over the `g` in `w`
  have hrow (a : Fin n) : x (.inl a) = (L.gPiv.map fun g ↦ M a g * x (.inr g)).sum := by
    rw [hx a, sum_gPiv hL, Pi.zero_apply, add_zero, add_eq_left]
    refine Finset.sum_eq_zero fun j _ ↦ ?_
    rcases hj : L.z2g j with _ | g
    · rfl
    · have hg : e (.inr j) = .inr g := Sum.getRight?_eq_some_iff.1 ((hL.z2g j).symm.trans hj)
      rw [Option.elim_some, hout (not_inW_iff.2 ⟨j, hg⟩), mul_zero]
  have hmul : (square L.gPiv.length (subMatrix M L.aPiv L.gPiv)).mulVec
      (fun t ↦ x (.inr L.gPiv[t])) = 0 := by
    funext i
    have hi : i < L.aPiv.length := by rw [hL.length_aPiv]; exact i.isLt
    have ha := List.getElem?_eq_getElem hi
    have ha0 := hout (hL.not_inW_of_aPiv ha)
    rw [hrow, ← sum_range_length (F := fun t ↦ subMatrix M L.aPiv L.gPiv i t *
      L.gPiv[t]?.elim 0 fun g ↦ x (.inr g)) fun t g hg ↦ by
        rw [subMatrix, ha, hg, Option.elim_some, Option.elim_some, Option.elim_some],
      Finset.sum_range] at ha0
    refine (Finset.sum_congr rfl fun t _ ↦ ?_).trans ha0
    rw [List.getElem?_eq_getElem t.isLt, Option.elim_some]
    rfl
  have hpiv := Matrix.eq_zero_of_mulVec_eq_zero h.ne_zero hmul
  have hg (g : Fin (n + 1)) : x (.inr g) = 0 := by
    by_cases hin : InW e (.inr g)
    · obtain ⟨t, ht, rfl⟩ := List.getElem_of_mem (hL.mem_gPiv.2 hin)
      exact congrFun hpiv ⟨t, ht⟩
    · exact hout hin
  refine funext fun v ↦ ?_
  rcases v with a | g
  · rw [hrow]
    simp [hg]
  · exact hg g

/-! ### The results -/

/-- The column is that of the product with the inverse. -/
theorem columnOf_eq_columnFrom (M : Matrix (Fin n) (Fin (n + 1)) K) (q : Fin n → K)
    (Minv : ℕ → ℕ → K) (L : Labels n) (jr : Fin (n + 1)) :
    columnOf M Minv L jr =
      columnFrom M L jr (mul L.gPiv.length Minv (rightHandSide M q L jr) · 0) := by
  have hpiv : columnPiv M Minv L jr = fun t ↦
      if (L.z2a jr).isSome then mul L.gPiv.length Minv (rightHandSide M q L jr) t 0
      else -mul L.gPiv.length Minv (rightHandSide M q L jr) t 0 := by
    funext t
    simp only [columnPiv, mul, mulVec, rightHandSide, if_true]
    split <;> rfl
  funext i
  rw [columnOf, hpiv]
  rfl

theorem constOf_eq_constFrom (M : Matrix (Fin n) (Fin (n + 1)) K) (q : Fin n → K)
    (Minv : ℕ → ℕ → K) (L : Labels n) (jr : Fin (n + 1)) :
    constOf M q Minv L =
      constFrom M q L (mul L.gPiv.length Minv (rightHandSide M q L jr) · 1) :=
  rfl

theorem columnFrom_congr (hL : L.Places e) (jr : Fin (n + 1)) {x y : ℕ → K}
    (h : ∀ t < L.gPiv.length, x t = y t) : columnFrom M L jr x = columnFrom M L jr y := by
  funext i
  rw [columnFrom, columnFrom]
  rcases hi : e (.inl i) with a | g
  · rw [countPiv_of_none (by rw [hL.w2g, hi]; rfl), hL.w2a, hi]
    refine congrArg (_ + ·) (Finset.sum_congr rfl fun t ht ↦ ?_)
    dsimp only
    rw [h t (Finset.mem_range.1 ht)]
  · obtain ⟨t, ht, hg⟩ := hL.exists_gPiv hi
    rw [ht]
    dsimp only
    rw [h t (List.getElem?_eq_some_iff.1 hg).1]

theorem constFrom_congr (hL : L.Places e) {x y : ℕ → K} (h : ∀ t < L.gPiv.length, x t = y t) :
    constFrom M q L x = constFrom M q L y := by
  funext i
  rw [constFrom, constFrom]
  rcases hi : e (.inl i) with a | g
  · rw [countPiv_of_none (by rw [hL.w2g, hi]; rfl), hL.w2a, hi]
    refine congrArg (_ + ·) (Finset.sum_congr rfl fun t ht ↦ ?_)
    dsimp only
    rw [h t (Finset.mem_range.1 ht)]
  · obtain ⟨t, ht, hg⟩ := hL.exists_gPiv hi
    rw [ht]
    exact congrArg Neg.neg (h t (List.getElem?_eq_some_iff.1 hg).1)

/-- The update of the inverse is the inverse of the block after the exchange. -/
theorem isInverse_newMinv (hL : L.Places e)
    (hold : IsInverse L.gPiv.length (subMatrix M L.aPiv L.gPiv) A)
    (hnew : IsUnit (square (L.swapIndex js jr).gPiv.length
      (subMatrix M (L.swapIndex js jr).aPiv (L.swapIndex js jr).gPiv)).det) :
    IsInverse (L.swapIndex js jr).gPiv.length
      (subMatrix M (L.swapIndex js jr).aPiv (L.swapIndex js jr).gPiv)
      (newMinv M A L (L.swapIndex js jr) (L.w2a js) (L.w2g js) (L.z2a jr) (L.z2g jr)) := by
  have hL' := hL.swapIndex js jr
  obtain ⟨D⟩ := nonempty_dictionary (determines_of_isUnit hL hold.isUnit_det) (0 : Fin n → K)
  have hne : D.coeff js jr ≠ 0 := D.coeff_ne_zero (determines_of_isUnit hL' hnew)
  have h := holdsInverse_newMinv hne hL ((holdsInverse_iff hL D).2 hold)
  exact (holdsInverse_iff hL' (D.exchange js jr hne)).1 h

/-- **The pivot with the old inverse** has the inverse of the new block, and the same column and
right-hand side as the pivot from scratch. -/
theorem pivot_eq_pivotFromScratch {dgelss : ℕ → (ℕ → ℕ → K) → (ℕ → ℕ → K) → ℕ → ℕ → K}
    (hdgelss : SolvesEquations dgelss) (hL : L.Places e) {oldMinv : ℕ → ℕ → K}
    (hold : IsInverse L.gPiv.length (subMatrix M L.aPiv L.gPiv) oldMinv)
    (hnew : IsUnit (square (L.swapIndex js jr).gPiv.length
      (subMatrix M (L.swapIndex js jr).aPiv (L.swapIndex js jr).gPiv)).det)
    (newJr : Fin (n + 1)) :
    let new := L.swapIndex js jr
    let result := pivot M q oldMinv L (L.w2a js) (L.w2g js) (L.z2a jr) (L.z2g jr) new newJr
    IsInverse new.gPiv.length (subMatrix M new.aPiv new.gPiv) result.1 ∧
      result.2 = pivotFromScratch M q dgelss new newJr := by
  intro new result
  have hL' : new.Places _ := hL.swapIndex js jr
  have hinv : IsInverse new.gPiv.length (subMatrix M new.aPiv new.gPiv) result.1 :=
    isInverse_newMinv hL hold hnew
  refine ⟨hinv, ?_⟩
  have hx (j : ℕ) {t : ℕ} (ht : t < new.gPiv.length) :
      mul new.gPiv.length result.1 (rightHandSide M q new newJr) t j =
        lineqSvd dgelss new.gPiv.length (subMatrix M new.aPiv new.gPiv)
          (rightHandSide M q new newJr) t j :=
    (hinv.mul_eq (fun i hi ↦ hdgelss.lineqSvd hnew _ hi j) ht).symm
  refine Prod.ext ?_ ?_
  · show columnOf M result.1 new newJr = _
    rw [columnOf_eq_columnFrom M q]
    exact columnFrom_congr hL' newJr fun t ht ↦ hx 0 ht
  · show constOf M q result.1 new = _
    rw [constOf_eq_constFrom M q result.1 new newJr]
    exact constFrom_congr hL' fun t ht ↦ hx 1 ht

end Blocks

/-! ### An example -/

/-- A solver by Cramer's rule. -/
def cramerSolver (k : ℕ) (A b : ℕ → ℕ → K) (i j : ℕ) : K :=
  if h : i < k then ∑ t, (square k A).adjugate ⟨i, h⟩ t / (square k A).det * b t j else 0

theorem solvesEquations_cramerSolver : SolvesEquations (K := K) cramerSolver := by
  intro k A b hA i hi j
  have hinv : square k A * ((square k A).det⁻¹ • (square k A).adjugate) = 1 := by
    rw [Matrix.mul_smul, Matrix.mul_adjugate, smul_smul, inv_mul_cancel₀ hA.ne_zero, one_smul]
  have hrow := congrFun (congrArg (fun B ↦ B.mulVec fun t : Fin k ↦ b t j) hinv) ⟨i, hi⟩
  rw [← Matrix.mulVec_mulVec, Matrix.one_mulVec] at hrow
  rw [mul, Finset.sum_range, ← hrow]
  refine Finset.sum_congr rfl fun t _ ↦ congrArg (A i t * ·) ?_
  rw [cramerSolver, dif_pos t.isLt]
  refine Finset.sum_congr rfl fun s _ ↦ congrArg (· * b s j) ?_
  exact div_eq_inv_mul _ _

/-- Two contacts that push each other. -/
def coupledMatrix : Matrix (Fin 2) (Fin 3) ℚ :=
  !![2, 1, 1; 1, 2, 1]

/-- The first `g` is in `w`. -/
def firstLabels : Labels 2 :=
  (Labels.initial 2).swapIndex 0 0

theorem pivot_eq_pivotFromScratch_coupled :
    let new := firstLabels.swapIndex 1 1
    let result := pivot coupledMatrix ![-1, -2] (fun _ _ ↦ 1 / 2) firstLabels
      (firstLabels.w2a 1) (firstLabels.w2g 1) (firstLabels.z2a 1) (firstLabels.z2g 1) new 2
    IsInverse new.gPiv.length (subMatrix coupledMatrix new.aPiv new.gPiv) result.1 ∧
      result.2 = pivotFromScratch coupledMatrix ![-1, -2] cramerSolver new 2 := by
  refine pivot_eq_pivotFromScratch solvesEquations_cramerSolver
    ((Labels.places_initial 2).swapIndex 0 0) ?_ ?_ 2
  · show square 1 _ * square 1 _ = 1
    decide +kernel
  · show IsUnit (square 2 _).det
    rw [Matrix.det_fin_two, isUnit_iff_ne_zero]
    decide +kernel

end OpenHRP.LCP
