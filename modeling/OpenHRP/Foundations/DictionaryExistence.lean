import OpenHRP.Foundations.Dictionary
import Mathlib.LinearAlgebra.FiniteDimensional.Basic

/-!
# The dictionaries that there are

There is a dictionary for a choice of basic and nonbasic variables where the nonbasic ones determine
a solution (`nonempty_dictionary`). A variable that changes places with another one has an entry
that is not zero when the nonbasic variables determine a solution also afterwards
(`Dictionary.coeff_ne_zero`).
-/

variable {R C K : Type*} [Fintype C] [Field K] {M : Matrix R C K} {q : R → K} {e : R ⊕ C ≃ R ⊕ C}

/-- The nonbasic variables determine a solution. -/
def Determines (M : Matrix R C K) (e : R ⊕ C ≃ R ⊕ C) : Prop :=
  ∀ x, Satisfies M 0 x → (∀ j, x (e (.inr j)) = 0) → x = 0

namespace Dictionary

theorem coeff_ne_zero [DecidableEq R] [DecidableEq C] (D : Dictionary M q e) {r : R} {c : C}
    (h : Determines M (exchanged e r c)) : D.coeff r c ≠ 0 := by
  intro hcoeff
  -- the column is a solution in which all nonbasic variables of the other choice are zero
  have hzero (j : C) : D.column c (exchanged e r c (.inr j)) = 0 := by
    rw [exchanged_inr]
    split
    · rw [column_basic, hcoeff]
    · next hj => rw [column_nonbasic, Pi.single_eq_of_ne hj]
  have hone := congrFun (h _ (D.satisfies_column c) hzero) (e (.inr c))
  rw [column_nonbasic, Pi.single_eq_same] at hone
  exact one_ne_zero hone

end Dictionary

section Existence

/-- The solution of the equations without a right-hand side, by the variables on the right. -/
def solutionOf (M : Matrix R C K) : (C → K) →ₗ[K] (R ⊕ C → K) where
  toFun z := Sum.elim (fun i ↦ ∑ j, M i j * z j) z
  map_add' z z' := by
    ext v
    rcases v with i | j
    · simp [mul_add, Finset.sum_add_distrib]
    · rfl
  map_smul' k z := by
    ext v
    rcases v with i | j
    · simp [Finset.mul_sum, mul_left_comm]
    · rfl

theorem satisfies_solutionOf (M : Matrix R C K) (z : C → K) : Satisfies M 0 (solutionOf M z) :=
  fun _ ↦ (add_zero _).symm

theorem satisfies_sub {x y : R ⊕ C → K} (hx : Satisfies M q x) (hy : Satisfies M q y) :
    Satisfies M 0 (x - y) :=
  (satisfies_add_iff hy).1 (by rwa [sub_add_cancel])

/-- Where the nonbasic variables determine a solution, they take all values. -/
theorem exists_solution (h : Determines M e) :
    ∃ s : (C → K) →ₗ[K] (R ⊕ C → K), ∀ z, Satisfies M 0 (s z) ∧ ∀ j, s z (e (.inr j)) = z j := by
  let nonbasic : (C → K) →ₗ[K] (C → K) :=
    LinearMap.funLeft K K (fun j ↦ e (.inr j)) ∘ₗ solutionOf M
  have hinjective : Function.Injective nonbasic := by
    refine (injective_iff_map_eq_zero nonbasic).2 fun z hz ↦ funext fun j ↦ ?_
    have hzero := h _ (satisfies_solutionOf M z) fun j' ↦ congrFun hz j'
    exact congrFun hzero (.inr j)
  let f := LinearEquiv.ofInjectiveEndo nonbasic hinjective
  refine ⟨solutionOf M ∘ₗ f.symm, fun z ↦ ⟨satisfies_solutionOf M _, fun j ↦ ?_⟩⟩
  exact congrFun (f.apply_symm_apply z) j

variable [DecidableEq C]

/-- There is a dictionary where the nonbasic variables determine a solution. -/
theorem nonempty_dictionary (h : Determines M e) (q : R → K) : Nonempty (Dictionary M q e) := by
  obtain ⟨s, hs⟩ := exists_solution h
  -- a solution with a right-hand side whose nonbasic variables are zero
  let x₀ : R ⊕ C → K := Sum.elim q 0
  let x₁ := (s fun j ↦ -x₀ (e (.inr j))) + x₀
  have hx₁ : Satisfies M q x₁ := (satisfies_add_iff satisfies_elim_zero).2 (hs _).1
  have hzero (j : C) : x₁ (e (.inr j)) = 0 := by
    show (s fun j ↦ -x₀ (e (.inr j))) (e (.inr j)) + x₀ (e (.inr j)) = 0
    rw [(hs _).2, neg_add_cancel]
  let coeff : Matrix R C K := fun i j ↦ s (fun j' ↦ if j = j' then 1 else 0) (e (.inl i))
  have hsum (z : C → K) (i : R) : s z (e (.inl i)) = ∑ j, coeff i j * z j := by
    have hpi := congrFun (LinearMap.pi_apply_eq_sum_univ s z) (e (.inl i))
    rw [hpi, Finset.sum_apply]
    exact Finset.sum_congr rfl fun j _ ↦ mul_comm _ _
  refine ⟨⟨coeff, fun i ↦ x₁ (e (.inl i)), fun x ↦ ?_⟩⟩
  have hy := (satisfies_add_iff hx₁).2 (hs fun j ↦ x (e (.inr j))).1
  have hnonbasic (j : C) : ((s fun j ↦ x (e (.inr j))) + x₁) (e (.inr j)) = x (e (.inr j)) := by
    rw [Pi.add_apply, hzero, add_zero, (hs _).2]
  constructor
  · intro hx
    have heq : x = (s fun j ↦ x (e (.inr j))) + x₁ := by
      refine funext fun v ↦ ?_
      obtain ⟨i | j, rfl⟩ := e.surjective v
      · rw [Pi.add_apply, hsum]
        exact hx i
      · exact (hnonbasic j).symm
    rw [heq]
    exact hy
  · intro hx i
    have hsub := h _ (satisfies_sub hx hy) fun j ↦ by rw [Pi.sub_apply, hnonbasic, sub_self]
    have hi := congrFun (sub_eq_zero.1 hsub) (e (.inl i))
    rw [Pi.add_apply, hsum] at hi
    exact hi

end Existence
