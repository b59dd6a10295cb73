import OpenHRP.Foundations.Literals
import Mathlib.Algebra.BigOperators.Field
import Mathlib.Algebra.Order.Field.Basic
import Mathlib.Data.Fintype.BigOperators
import Mathlib.LinearAlgebra.Matrix.Defs
import Mathlib.Tactic.FieldSimp
import Mathlib.Tactic.Linarith
import Mathlib.Tactic.LinearCombination
import Mathlib.Tactic.Ring

/-!
# Dictionaries of linear equations

A system of linear equations `x_i = ∑ j, M i j * x_j + q i` writes the variables `inl i` in terms of
the variables `inr j`. Its dictionaries write other variables, the basic ones, in terms of the
others: `e (inl i)` is the basic variable of row `i`, and `e (inr j)` the nonbasic one of column
`j`.

A basic variable and a nonbasic one change places where the entry is not zero
(`Dictionary.exchange`), and a right-hand side that is not negative stays so when the row has the
least ratio (`exchangeConst_nonneg`).
-/

variable {R C K : Type*} [Fintype C]

section Satisfies

variable [Semiring K]

/-- The variables satisfy the equations. -/
def Satisfies (M : Matrix R C K) (q : R → K) (x : R ⊕ C → K) : Prop :=
  ∀ i, x (.inl i) = ∑ j, M i j * x (.inr j) + q i

end Satisfies

variable [Field K] {M : Matrix R C K} {q : R → K}

/-- The difference of two solutions solves the equations without a right-hand side. -/
theorem satisfies_add_iff {x x₀ : R ⊕ C → K} (h : Satisfies M q x₀) :
    Satisfies M q (x + x₀) ↔ Satisfies M 0 x := by
  refine forall_congr' fun i ↦ ?_
  simp only [Pi.add_apply, Pi.zero_apply, mul_add, Finset.sum_add_distrib, h i]
  constructor <;> intro hi <;> linear_combination hi

theorem satisfies_elim_zero : Satisfies M q (Sum.elim q 0) := fun i ↦ by
  simp

/-- The values of all variables when the nonbasic ones are zero but for a one at `j`. -/
theorem satisfies_elim_single [DecidableEq C] (j : C) :
    Satisfies M 0 (Sum.elim (fun i ↦ M i j) (Pi.single j 1)) := fun i ↦ by
  simp [Pi.single_apply]

/-- A dictionary of the equations for a choice `e` of basic and nonbasic variables. -/
structure Dictionary (M : Matrix R C K) (q : R → K) (e : R ⊕ C ≃ R ⊕ C) where
  coeff : Matrix R C K
  const : R → K
  satisfies_iff : ∀ x, Satisfies coeff const (x ∘ e) ↔ Satisfies M q x

namespace Dictionary

variable {e : R ⊕ C ≃ R ⊕ C}

/-- The equations themselves. -/
def refl (M : Matrix R C K) (q : R → K) : Dictionary M q (Equiv.refl _) where
  coeff := M
  const := q
  satisfies_iff _ := Iff.rfl

/-- The solution whose nonbasic variables are zero. -/
def basicSolution (D : Dictionary M q e) : R ⊕ C → K :=
  Sum.elim D.const 0 ∘ e.symm

variable (D : Dictionary M q e)

theorem basicSolution_comp : D.basicSolution ∘ e = Sum.elim D.const 0 := by
  rw [basicSolution, Function.comp_assoc, Equiv.symm_comp_self, Function.comp_id]

theorem satisfies_basicSolution : Satisfies M q D.basicSolution :=
  (D.satisfies_iff _).1 (by rw [basicSolution_comp]; exact satisfies_elim_zero)

theorem satisfies_zero_iff (x : R ⊕ C → K) : Satisfies D.coeff 0 (x ∘ e) ↔ Satisfies M 0 x := by
  rw [← satisfies_add_iff D.satisfies_basicSolution, ← D.satisfies_iff,
    ← satisfies_add_iff ((D.satisfies_iff _).2 D.satisfies_basicSolution)]
  rfl

variable [DecidableEq C]

/-- How all variables change with the nonbasic variable of column `j`. -/
def column (D : Dictionary M q e) (j : C) : R ⊕ C → K :=
  Sum.elim (fun i ↦ D.coeff i j) (Pi.single j 1) ∘ e.symm

theorem column_comp (j : C) : D.column j ∘ e = Sum.elim (fun i ↦ D.coeff i j) (Pi.single j 1) := by
  rw [column, Function.comp_assoc, Equiv.symm_comp_self, Function.comp_id]

theorem column_basic (i : R) (j : C) : D.column j (e (.inl i)) = D.coeff i j :=
  congrFun (D.column_comp j) (.inl i)

theorem column_nonbasic (j j' : C) : D.column j (e (.inr j')) = Pi.single (M := fun _ ↦ K) j 1 j' :=
  congrFun (D.column_comp j) (.inr j')

theorem satisfies_column (j : C) : Satisfies M 0 (D.column j) :=
  (D.satisfies_zero_iff _).1 (by rw [column_comp]; exact satisfies_elim_single j)

/-- How the variable `v` changes with the nonbasic variable `v'`. -/
def entry (D : Dictionary M q e) (v v' : R ⊕ C) : K :=
  (e.symm v').elim (fun _ ↦ 0) fun j ↦ D.column j v

theorem entry_nonbasic (v : R ⊕ C) (j : C) : D.entry v (e (.inr j)) = D.column j v := by
  rw [entry, e.symm_apply_apply, Sum.elim_inr]

end Dictionary

section Exchange

variable [DecidableEq R] [DecidableEq C]

/-- The entries after the variables of row `r` and column `c` have changed places. -/
def exchangeCoeff (M : Matrix R C K) (r : R) (c : C) : Matrix R C K := fun i j ↦
  if i = r then if j = c then (M r c)⁻¹ else -(M r j / M r c)
  else if j = c then M i c / M r c
  else M i j - M i c * M r j / M r c

/-- The right-hand side after the variables of row `r` and column `c` have changed places. -/
def exchangeConst (M : Matrix R C K) (q : R → K) (r : R) (c : C) : R → K := fun i ↦
  if i = r then -q r / M r c else q i + M i c * (-q r / M r c)

variable {r : R} {c : C} {y : R ⊕ C → K}

theorem sum_exchangeCoeff_self :
    ∑ j, exchangeCoeff M r c r j * (y ∘ Equiv.swap (.inl r) (.inr c)) (.inr j) =
      (M r c)⁻¹ * y (.inl r) - (∑ j ∈ Finset.univ.erase c, M r j * y (.inr j)) / M r c := by
  rw [← Finset.add_sum_erase _ _ (Finset.mem_univ c), Finset.sum_div, sub_eq_add_neg,
    ← Finset.sum_neg_distrib]
  congr 1
  · simp [exchangeCoeff]
  · refine Finset.sum_congr rfl fun j hj ↦ ?_
    have hjc : j ≠ c := Finset.ne_of_mem_erase hj
    rw [exchangeCoeff, if_pos rfl, if_neg hjc, Function.comp_apply,
      Equiv.swap_apply_of_ne_of_ne Sum.inr_ne_inl (Sum.inr_injective.ne hjc)]
    ring

theorem sum_exchangeCoeff_of_ne {i : R} (hi : i ≠ r) :
    ∑ j, exchangeCoeff M r c i j * (y ∘ Equiv.swap (.inl r) (.inr c)) (.inr j) =
      M i c / M r c * y (.inl r) + ∑ j ∈ Finset.univ.erase c, M i j * y (.inr j) -
        M i c / M r c * ∑ j ∈ Finset.univ.erase c, M r j * y (.inr j) := by
  rw [← Finset.add_sum_erase _ _ (Finset.mem_univ c), Finset.mul_sum, add_sub_assoc,
    ← Finset.sum_sub_distrib]
  congr 1
  · simp [exchangeCoeff, hi]
  · refine Finset.sum_congr rfl fun j hj ↦ ?_
    have hjc : j ≠ c := Finset.ne_of_mem_erase hj
    rw [exchangeCoeff, if_neg hi, if_neg hjc, Function.comp_apply,
      Equiv.swap_apply_of_ne_of_ne Sum.inr_ne_inl (Sum.inr_injective.ne hjc)]
    ring

/-- The equations are the same after the exchange. -/
theorem satisfies_exchange_iff (hne : M r c ≠ 0) :
    Satisfies (exchangeCoeff M r c) (exchangeConst M q r c) (y ∘ Equiv.swap (.inl r) (.inr c)) ↔
      Satisfies M q y := by
  have hold (i : R) : (∑ j, M i j * y (.inr j)) =
      M i c * y (.inr c) + ∑ j ∈ Finset.univ.erase c, M i j * y (.inr j) :=
    (Finset.add_sum_erase _ _ (Finset.mem_univ c)).symm
  have hself : (y (.inr c) = (M r c)⁻¹ * y (.inl r) -
      (∑ j ∈ Finset.univ.erase c, M r j * y (.inr j)) / M r c + -q r / M r c) ↔
      y (.inl r) = ∑ j, M r j * y (.inr j) + q r := by
    rw [hold]
    constructor
    · intro h
      rw [h]
      field_simp
      ring
    · intro h
      rw [h]
      field_simp
      ring
  have hrow (i : R) : (y ∘ Equiv.swap (.inl r) (.inr c)) (.inl i) =
      if i = r then y (.inr c) else y (.inl i) := by
    split
    · next h => rw [h, Function.comp_apply, Equiv.swap_apply_left]
    · next h =>
      rw [Function.comp_apply,
        Equiv.swap_apply_of_ne_of_ne (Sum.inl_injective.ne h) Sum.inl_ne_inr]
  -- the row of the exchange is solved for the other variable, and put into the other rows
  constructor
  · intro h
    have hr := h r
    rw [hrow, if_pos rfl, sum_exchangeCoeff_self, exchangeConst, if_pos rfl] at hr
    intro i
    by_cases hi : i = r
    · rw [hi]
      exact hself.1 hr
    · have hir := h i
      rw [hrow, if_neg hi, sum_exchangeCoeff_of_ne hi, exchangeConst, if_neg hi] at hir
      rw [hir, hold, hr]
      field_simp
      ring
  · intro h
    have hr := hself.2 (h r)
    intro i
    by_cases hi : i = r
    · rw [hi, hrow, if_pos rfl, sum_exchangeCoeff_self, exchangeConst, if_pos rfl]
      exact hr
    · rw [hrow, if_neg hi, sum_exchangeCoeff_of_ne hi, exchangeConst, if_neg hi, h i, hold, hr]
      field_simp
      ring

omit [Fintype C] [DecidableEq C] in
/-- A right-hand side that is not negative stays so when row `r` has the least ratio. -/
theorem exchangeConst_nonneg [LinearOrder K] [IsStrictOrderedRing K] (hq : ∀ i, 0 ≤ q i)
    (hneg : M r c < 0) (hleast : ∀ i, M i c < 0 → -q r / M r c ≤ -q i / M i c) (i : R) :
    0 ≤ exchangeConst M q r c i := by
  have hratio : 0 ≤ -q r / M r c := div_nonneg_of_nonpos (neg_nonpos.2 (hq r)) hneg.le
  rw [exchangeConst]
  split
  · exact hratio
  · rcases le_or_gt 0 (M i c) with hpos | hlt
    · exact add_nonneg (hq i) (mul_nonneg hpos hratio)
    · have hle := mul_le_mul_of_nonpos_left (hleast i hlt) hlt.le
      rw [mul_div_cancel₀ _ hlt.ne] at hle
      linarith

/-- The choice after the variables of row `r` and column `c` have changed places. -/
def exchanged (e : R ⊕ C ≃ R ⊕ C) (r : R) (c : C) : R ⊕ C ≃ R ⊕ C :=
  (Equiv.swap (.inl r) (.inr c)).trans e

section Exchanged

variable (e : R ⊕ C ≃ R ⊕ C)

section

omit [Fintype C]

theorem exchanged_inl (i : R) :
    exchanged e r c (.inl i) = if i = r then e (.inr c) else e (.inl i) := by
  rw [exchanged, Equiv.trans_apply]
  split
  · next h => rw [h, Equiv.swap_apply_left]
  · next h => rw [Equiv.swap_apply_of_ne_of_ne (Sum.inl_injective.ne h) Sum.inl_ne_inr]

theorem exchanged_inr (j : C) :
    exchanged e r c (.inr j) = if j = c then e (.inl r) else e (.inr j) := by
  rw [exchanged, Equiv.trans_apply]
  split
  · next h => rw [h, Equiv.swap_apply_right]
  · next h => rw [Equiv.swap_apply_of_ne_of_ne Sum.inr_ne_inl (Sum.inr_injective.ne h)]

end

end Exchanged

/-- A dictionary after an exchange. -/
def Dictionary.exchange {e : R ⊕ C ≃ R ⊕ C} (D : Dictionary M q e) (r : R) (c : C)
    (hne : D.coeff r c ≠ 0) : Dictionary M q (exchanged e r c) where
  coeff := exchangeCoeff D.coeff r c
  const := exchangeConst D.coeff D.const r c
  satisfies_iff x := by
    rw [← D.satisfies_iff]
    exact satisfies_exchange_iff (y := x ∘ e) hne

variable {e : R ⊕ C ≃ R ⊕ C}

omit [DecidableEq R] in
theorem Dictionary.entry_basic (D : Dictionary M q e) (i : R) (j : C) :
    D.entry (e (.inl i)) (e (.inr j)) = D.coeff i j := by
  rw [D.entry_nonbasic, D.column_basic]

/-- The entries after an exchange, by the variables. -/
theorem Dictionary.entry_exchange (D : Dictionary M q e) (hne : D.coeff r c ≠ 0) (i : R) (j : C) :
    (D.exchange r c hne).entry (exchanged e r c (.inl i)) (exchanged e r c (.inr j)) =
      exchangeCoeff D.coeff r c i j :=
  Dictionary.entry_basic _ i j

end Exchange
