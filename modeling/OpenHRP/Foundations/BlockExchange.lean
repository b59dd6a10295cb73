import OpenHRP.Foundations.Dictionary

/-!
# Exchange of a block

In a system `a = M g + q` with as many equations as unknowns, `a i` and `g i` change places for
every `i` with `P i`. Where the block of `M` over these indices has the inverse `D`, the new system
is given by blocks (`exchangedMatrix`, `exchangedVector`), and its solutions solve the old one when
the variables are put back (`satisfies_of_exchanged`).
-/

variable {ι K : Type*} [Fintype ι]

/-- The variables `inl i` and `inr i` change places where `P i`. -/
def exchangeSides (P : ι → Prop) [DecidablePred P] : ι ⊕ ι → ι ⊕ ι
  | .inl i => if P i then .inr i else .inl i
  | .inr i => if P i then .inl i else .inr i

/-- `D` is a right inverse of the block of `M`. -/
def IsBlockInverse [CommRing K] [DecidableEq ι] (P : ι → Prop) [DecidablePred P]
    (M D : Matrix ι ι K) : Prop :=
  ∀ i, P i → ∀ j, P j → ∑ k with P k, M i k * D k j = if i = j then 1 else 0

section Exchange

variable [Field K] (P : ι → Prop) [DecidablePred P] (M D : Matrix ι ι K) (q : ι → K)

/-- The matrix after the exchange. -/
def exchangedMatrix : Matrix ι ι K := fun i j ↦
  if P i then
    if P j then D i j else -∑ k with P k, D i k * M k j
  else
    if P j then ∑ k with P k, M i k * D k j
    else M i j + ∑ k with P k, M i k * -∑ l with P l, D k l * M l j

/-- The right-hand side after the exchange. -/
def exchangedVector (i : ι) : K :=
  if P i then -∑ k with P k, D i k * q k
  else q i + ∑ k with P k, M i k * -∑ l with P l, D k l * q l

variable {P M D q}

/-- What is left for the block to cancel. -/
def blockResidual (P : ι → Prop) [DecidablePred P] (M : Matrix ι ι K) (q z : ι → K) (k : ι) : K :=
  z k - ∑ j with ¬ P j, M k j * z j - q k

/-- A row of the block, in the exchanged system. -/
theorem exchanged_of_mem {i : ι} (hi : P i) (z : ι → K) :
    ∑ j, exchangedMatrix P M D i j * z j + exchangedVector P M D q i =
      ∑ k with P k, D i k * blockResidual P M q z k := by
  have hin : ∑ j with P j, exchangedMatrix P M D i j * z j = ∑ k with P k, D i k * z k :=
    Finset.sum_congr rfl fun j hj ↦ by
      rw [exchangedMatrix, if_pos hi, if_pos (Finset.mem_filter.1 hj).2]
  have hout : ∑ j with ¬ P j, exchangedMatrix P M D i j * z j =
      -∑ k with P k, D i k * ∑ j with ¬ P j, M k j * z j := by
    calc ∑ j with ¬ P j, exchangedMatrix P M D i j * z j
        = ∑ j with ¬ P j, -∑ k with P k, D i k * (M k j * z j) :=
          Finset.sum_congr rfl fun j hj ↦ by
            rw [exchangedMatrix, if_pos hi, if_neg (Finset.mem_filter.1 hj).2, neg_mul,
              Finset.sum_mul]
            simp only [mul_assoc]
      _ = _ := by
          rw [Finset.sum_neg_distrib, Finset.sum_comm]
          simp only [Finset.mul_sum]
  rw [← Finset.sum_filter_add_sum_filter_not _ P, hin, hout, exchangedVector, if_pos hi]
  simp only [blockResidual, mul_sub, Finset.sum_sub_distrib]
  ring

/-- A row outside the block, in the exchanged system. -/
theorem exchanged_of_not_mem {i : ι} (hi : ¬ P i) (z : ι → K) :
    ∑ j, exchangedMatrix P M D i j * z j + exchangedVector P M D q i =
      ∑ k with P k, M i k * ∑ l with P l, D k l * blockResidual P M q z l +
        ∑ j with ¬ P j, M i j * z j + q i := by
  have hin : ∑ j with P j, exchangedMatrix P M D i j * z j =
      ∑ k with P k, M i k * ∑ l with P l, D k l * z l := by
    calc ∑ j with P j, exchangedMatrix P M D i j * z j
        = ∑ j with P j, ∑ k with P k, M i k * (D k j * z j) :=
          Finset.sum_congr rfl fun j hj ↦ by
            rw [exchangedMatrix, if_neg hi, if_pos (Finset.mem_filter.1 hj).2, Finset.sum_mul]
            simp only [mul_assoc]
      _ = _ := by
          rw [Finset.sum_comm]
          simp only [Finset.mul_sum]
  have hout : ∑ j with ¬ P j, exchangedMatrix P M D i j * z j = ∑ j with ¬ P j, M i j * z j -
      ∑ k with P k, M i k * ∑ l with P l, D k l * ∑ j with ¬ P j, M l j * z j := by
    calc ∑ j with ¬ P j, exchangedMatrix P M D i j * z j
        = ∑ j with ¬ P j, (M i j * z j -
            ∑ k with P k, M i k * ∑ l with P l, D k l * (M l j * z j)) :=
          Finset.sum_congr rfl fun j hj ↦ by
            rw [exchangedMatrix, if_neg hi, if_neg (Finset.mem_filter.1 hj).2, add_mul,
              sub_eq_add_neg, ← Finset.sum_neg_distrib, Finset.sum_mul]
            simp only [mul_neg, neg_mul, mul_assoc, Finset.sum_mul]
      _ = _ := by
          rw [Finset.sum_sub_distrib, Finset.sum_comm]
          refine congrArg _ (Finset.sum_congr rfl fun k _ ↦ ?_)
          rw [← Finset.mul_sum, Finset.sum_comm]
          simp only [Finset.mul_sum]
  rw [← Finset.sum_filter_add_sum_filter_not _ P, hin, hout, exchangedVector, if_neg hi]
  simp only [blockResidual, mul_sub, Finset.sum_sub_distrib, mul_neg, Finset.sum_neg_distrib]
  ring

variable [DecidableEq ι]

theorem sum_blockResidual (hD : IsBlockInverse P M D) {i : ι} (hi : P i) (b : ι → K) :
    ∑ k with P k, M i k * ∑ l with P l, D k l * b l = b i := by
  calc ∑ k with P k, M i k * ∑ l with P l, D k l * b l
      = ∑ l with P l, (∑ k with P k, M i k * D k l) * b l := by
        simp only [Finset.mul_sum, Finset.sum_mul, mul_assoc]
        rw [Finset.sum_comm]
    _ = ∑ l with P l, (if i = l then 1 else 0) * b l :=
        Finset.sum_congr rfl fun l hl ↦ by rw [hD i hi l (Finset.mem_filter.1 hl).2]
    _ = b i := by
        simp only [ite_mul, one_mul, zero_mul, Finset.sum_ite_eq, Finset.mem_filter,
          Finset.mem_univ, true_and, if_pos hi]

/-- **A solution of the exchanged system solves the first one**, with the variables put back. -/
theorem satisfies_of_exchanged (hD : IsBlockInverse P M D) {x : ι ⊕ ι → K}
    (hx : Satisfies (exchangedMatrix P M D) (exchangedVector P M D q) x) :
    Satisfies M q (x ∘ exchangeSides P) := by
  set z : ι → K := fun j ↦ x (.inr j)
  have hblock {k : ι} (hk : P k) : x (.inl k) = ∑ l with P l, D k l * blockResidual P M q z l := by
    rw [hx k]
    exact exchanged_of_mem hk z
  -- the unknowns of the first system, in the block and outside it
  have hsum (i : ι) : ∑ j, M i j * (x ∘ exchangeSides P) (.inr j) =
      ∑ k with P k, M i k * ∑ l with P l, D k l * blockResidual P M q z l +
        ∑ j with ¬ P j, M i j * z j := by
    rw [← Finset.sum_filter_add_sum_filter_not _ P]
    refine congrArg₂ (· + ·) (Finset.sum_congr rfl fun k hk ↦ ?_)
      (Finset.sum_congr rfl fun j hj ↦ ?_)
    · rw [Function.comp_apply, exchangeSides, if_pos (Finset.mem_filter.1 hk).2,
        hblock (Finset.mem_filter.1 hk).2]
    · rw [Function.comp_apply, exchangeSides, if_neg (Finset.mem_filter.1 hj).2]
  intro i
  rw [hsum, Function.comp_apply, exchangeSides]
  by_cases hi : P i
  · rw [if_pos hi, sum_blockResidual hD hi, blockResidual]
    ring
  · rw [if_neg hi, hx i]
    exact exchanged_of_not_mem hi z

end Exchange
