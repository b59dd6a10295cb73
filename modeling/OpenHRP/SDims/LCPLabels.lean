import OpenHRP.Foundations.Dictionary
import Mathlib.Algebra.BigOperators.Fin

/-!
# The labels of a linear complementarity problem

A linear complementarity problem asks for `g` and `a` with `N * g + r = a`. With the artificial
variable `g n` it is `w = M * z + q`, `M = [N c]`, and pivots exchange variables between `w` and
`z`. The four arrays `w2a`, `w2g`, `z2a` and `z2g` say which variable is where.

A variable is `inl i` for `a i` and `inr i` for `g i`. `Labels.Places` says that the arrays hold the
variables as a bijection `e` places them, each exactly once. Then the lists that the pivots collect
from the arrays have no repetitions, and sums over them are sums over the positions.
-/

namespace OpenHRP.LCP

/-- The index arrays, where a `-1` is `none`. -/
structure Labels (n : ℕ) where
  w2a : Fin n → Option (Fin n)
  w2g : Fin n → Option (Fin (n + 1))
  z2a : Fin (n + 1) → Option (Fin n)
  z2g : Fin (n + 1) → Option (Fin (n + 1))

/-- A variable: an `a` or a `g`. -/
abbrev Var (n : ℕ) := Fin n ⊕ Fin (n + 1)

variable {n : ℕ}

namespace Labels

/-- The arrays as `SolvePivot` and `SolvePivot2` fill them: `w` holds the `a`, and `z` the `g`. -/
def initial (n : ℕ) : Labels n where
  w2a := some
  w2g _ := none
  z2a _ := none
  z2g := some

/-- `swap_index`. -/
def swapIndex (L : Labels n) (m : Fin n) (k : Fin (n + 1)) : Labels n where
  w2a := Function.update L.w2a m (L.z2a k)
  w2g := Function.update L.w2g m (L.z2g k)
  z2a := Function.update L.z2a k (L.w2a m)
  z2g := Function.update L.z2g k (L.w2g m)

/-- The `g` in `w`, in order. -/
def gPiv (L : Labels n) : List (Fin (n + 1)) :=
  (List.finRange n).filterMap L.w2g

/-- The `a` in `w`, in order. -/
def aBar (L : Labels n) : List (Fin n) :=
  (List.finRange n).filterMap fun i ↦ if (L.w2g i).isSome then none else L.w2a i

/-- The `a` in `z`, in order. -/
def aPiv (L : Labels n) : List (Fin n) :=
  (List.finRange (n + 1)).filterMap L.z2a

/-- The `g` in `z`, in order. -/
def gBar (L : Labels n) : List (Fin (n + 1)) :=
  (List.finRange (n + 1)).filterMap fun j ↦ if (L.z2a j).isSome then none else L.z2g j

/-- The arrays hold the variables as `e` places them: `e (inl i)` is `w` at `i`, and `e (inr j)` is
`z` at `j`. -/
structure Places (L : Labels n) (e : Var n ≃ Var n) : Prop where
  w2a : ∀ i, L.w2a i = (e (.inl i)).getLeft?
  w2g : ∀ i, L.w2g i = (e (.inl i)).getRight?
  z2a : ∀ j, L.z2a j = (e (.inr j)).getLeft?
  z2g : ∀ j, L.z2g j = (e (.inr j)).getRight?

theorem places_initial (n : ℕ) : (initial n).Places (Equiv.refl _) :=
  ⟨fun _ ↦ rfl, fun _ ↦ rfl, fun _ ↦ rfl, fun _ ↦ rfl⟩

variable {L : Labels n} {e : Var n ≃ Var n}

theorem Places.swapIndex (hL : L.Places e) (m : Fin n) (k : Fin (n + 1)) :
    (L.swapIndex m k).Places (exchanged e m k) := by
  constructor <;> intro i <;>
    simp only [Labels.swapIndex, Function.update_apply, exchanged_inl, exchanged_inr,
      hL.w2a, hL.w2g,
      hL.z2a, hL.z2g] <;>
    split <;> rfl

/-! ### The lists of variables -/

theorem Places.mem_gPiv (hL : L.Places e) {g : Fin (n + 1)} :
    g ∈ L.gPiv ↔ ∃ i, e (.inl i) = .inr g := by
  simp [gPiv, hL.w2g]

theorem Places.mem_aPiv (hL : L.Places e) {a : Fin n} :
    a ∈ L.aPiv ↔ ∃ j, e (.inr j) = .inl a := by
  simp [aPiv, hL.z2a]

theorem Places.nodup_gPiv (hL : L.Places e) : L.gPiv.Nodup := by
  refine (List.nodup_finRange n).filterMap fun i i' g hi hi' ↦ ?_
  rw [hL.w2g, Option.mem_def, Sum.getRight?_eq_some_iff] at hi hi'
  exact Sum.inl_injective (e.injective (hi.trans hi'.symm))

theorem Places.nodup_aPiv (hL : L.Places e) : L.aPiv.Nodup := by
  refine (List.nodup_finRange (n + 1)).filterMap fun j j' a hj hj' ↦ ?_
  rw [hL.z2a, Option.mem_def, Sum.getLeft?_eq_some_iff] at hj hj'
  exact Sum.inr_injective (e.injective (hj.trans hj'.symm))

end Labels

/-! ### Sums over the lists -/

section Sums

variable {K : Type*} [AddCommMonoid K]

theorem sum_filterMap {α β : Type*} (f : α → Option β) (F : β → K) (l : List α) :
    ((l.filterMap f).map F).sum = (l.map fun x ↦ (f x).elim 0 F).sum := by
  induction l with
  | nil => rfl
  | cons x l ih =>
    rcases hx : f x with _ | y
    · rw [List.filterMap_cons_none hx, ih, List.map_cons, List.sum_cons, hx, Option.elim_none,
        zero_add]
    · rw [List.filterMap_cons_some hx, List.map_cons, List.sum_cons, ih, List.map_cons,
        List.sum_cons, hx, Option.elim_some]

theorem sum_filterMap_finRange {m : ℕ} {β : Type*} (f : Fin m → Option β) (F : β → K) :
    (((List.finRange m).filterMap f).map F).sum = ∑ i, (f i).elim 0 F := by
  rw [sum_filterMap, Fin.sum_univ_def]

/-- A sum over the positions of a list. -/
theorem sum_range_length {α : Type*} {l : List α} {F : ℕ → K} {f : α → K}
    (h : ∀ t x, l[t]? = some x → F t = f x) :
    ∑ t ∈ Finset.range l.length, F t = (l.map f).sum := by
  induction l generalizing F with
  | nil => rfl
  | cons x l ih =>
    rw [List.length_cons, Finset.sum_range_succ', ih fun t y hy ↦ h (t + 1) y hy, h 0 x rfl,
      add_comm,
      List.map_cons, List.sum_cons]

variable {L : Labels n} {e : Var n ≃ Var n}

/-- Each `g` is in `w` or in `z`, once. -/
theorem Labels.Places.sum_g (hL : L.Places e) (f : Fin (n + 1) → K) :
    ∑ g, f g = ∑ i, (L.w2g i).elim 0 f + ∑ j, (L.z2g j).elim 0 f := by
  have hsum := Equiv.sum_comp e (Sum.elim (fun _ ↦ 0) f)
  rw [Fintype.sum_sum_type, Fintype.sum_sum_type] at hsum
  simp only [Sum.elim_inl, Sum.elim_inr, Finset.sum_const_zero, zero_add] at hsum
  rw [← hsum]
  simp only [hL.w2g, hL.z2g]
  congr 1 <;> refine Finset.sum_congr rfl fun i _ ↦ ?_ <;> rcases e _ with a | g <;> rfl

/-- Each `a` is in `w` or in `z`, once. -/
theorem Labels.Places.sum_a (hL : L.Places e) (f : Fin n → K) :
    ∑ a, f a = ∑ i, (L.w2a i).elim 0 f + ∑ j, (L.z2a j).elim 0 f := by
  have hsum := Equiv.sum_comp e (Sum.elim f fun _ ↦ 0)
  rw [Fintype.sum_sum_type, Fintype.sum_sum_type] at hsum
  simp only [Sum.elim_inl, Sum.elim_inr, Finset.sum_const_zero, add_zero] at hsum
  rw [← hsum]
  simp only [hL.w2a, hL.z2a]
  congr 1 <;> refine Finset.sum_congr rfl fun i _ ↦ ?_ <;> rcases e _ with a | g <;> rfl

theorem length_filterMap_finRange {m : ℕ} {β : Type*} (f : Fin m → Option β) :
    ((List.finRange m).filterMap f).length = ∑ i, (f i).elim 0 fun _ ↦ 1 := by
  rw [← sum_filterMap_finRange, List.map_const', List.sum_replicate, smul_eq_mul, mul_one]

/-- There are as many `a` in `z` as there are `g` in `w`. -/
theorem Labels.Places.length_aPiv (hL : L.Places e) : L.aPiv.length = L.gPiv.length := by
  have hw : ∑ i, (L.w2a i).elim 0 (fun _ ↦ 1) + ∑ i, (L.w2g i).elim 0 (fun _ ↦ 1) = n := by
    rw [← Finset.sum_add_distrib]
    simp only [hL.w2a, hL.w2g]
    have heach (i : Fin n) : ((e (.inl i)).getLeft?.elim 0 fun _ ↦ 1) +
        ((e (.inl i)).getRight?.elim 0 fun _ ↦ 1) = 1 := by
      rcases e (.inl i) with a | g <;> rfl
    simp [heach]
  have ha := hL.sum_a fun _ ↦ 1
  rw [Finset.sum_const, Finset.card_univ, Fintype.card_fin, smul_eq_mul, mul_one] at ha
  rw [Labels.aPiv, Labels.gPiv, length_filterMap_finRange, length_filterMap_finRange]
  omega

theorem Labels.Places.length_gBar (hL : L.Places e) :
    L.gBar.length + L.gPiv.length = n + 1 := by
  have hg := hL.sum_g fun _ ↦ 1
  rw [Finset.sum_const, Finset.card_univ, Fintype.card_fin, smul_eq_mul, mul_one] at hg
  rw [Labels.gBar, Labels.gPiv, length_filterMap_finRange, length_filterMap_finRange, add_comm]
  refine (congrArg (_ + ·) (Finset.sum_congr rfl fun j _ ↦ ?_)).trans hg.symm
  rw [hL.z2a, hL.z2g]
  rcases e (.inr j) with a | g <;> rfl

end Sums

/-! ### The entries of a dictionary -/

section Entries

variable {K : Type*} [Field K] {L : Labels n} {e : Var n ≃ Var n}
    {M : Matrix (Fin n) (Fin (n + 1)) K}
  {q : Fin n → K}

theorem sum_gPiv (hL : L.Places e) (f : Fin (n + 1) → K) :
    ∑ g, f g = (L.gPiv.map f).sum + ∑ j, (L.z2g j).elim 0 f := by
  rw [hL.sum_g, Labels.gPiv, sum_filterMap_finRange]

/-- An `a` with a column, from the `g` in `w`. -/
theorem column_inl (hL : L.Places e) (D : Dictionary M q e) (j : Fin (n + 1)) (a : Fin n) :
    D.column j (.inl a) =
      (L.gPiv.map fun g ↦ M a g * D.column j (.inr g)).sum + (L.z2g j).elim 0 (M a) := by
  rw [D.satisfies_column j a, sum_gPiv hL, Pi.zero_apply, add_zero]
  congr 1
  rw [Finset.sum_eq_single j]
  · rcases hj : L.z2g j with _ | g
    · rfl
    · have hg : e (.inr j) = .inr g := Sum.getRight?_eq_some_iff.1 ((hL.z2g j).symm.trans hj)
      rw [Option.elim_some, Option.elim_some, ← hg, D.column_nonbasic, Pi.single_eq_same, mul_one]
  · intro j' _ hne
    rcases hj : L.z2g j' with _ | g
    · rfl
    · have hg : e (.inr j') = .inr g := Sum.getRight?_eq_some_iff.1 ((hL.z2g j').symm.trans hj)
      rw [Option.elim_some, ← hg, D.column_nonbasic, Pi.single_eq_of_ne hne, mul_zero]
  · exact fun h ↦ absurd (Finset.mem_univ j) h

/-- An `a` of the basic solution, from the `g` in `w`. -/
theorem basicSolution_inl (hL : L.Places e) (D : Dictionary M q e) (a : Fin n) :
    D.basicSolution (.inl a) = (L.gPiv.map fun g ↦ M a g * D.basicSolution (.inr g)).sum + q a := by
  rw [D.satisfies_basicSolution a, sum_gPiv hL]
  congr 1
  rw [add_eq_left]
  refine Finset.sum_eq_zero fun j _ ↦ ?_
  rcases hj : L.z2g j with _ | g
  · rfl
  · have hg : e (.inr j) = .inr g := Sum.getRight?_eq_some_iff.1 ((hL.z2g j).symm.trans hj)
    have hzero : D.basicSolution (e (.inr j)) = 0 := congrFun D.basicSolution_comp (.inr j)
    rw [Option.elim_some, ← hg, hzero, mul_zero]

/-- A row of the dictionary times a vector, over the `a` in `z`. -/
theorem sum_aPiv (hL : L.Places e) (D : Dictionary M q e) (v : Var n) (f : Fin n → K) :
    (L.aPiv.map fun a ↦ D.entry v (.inl a) * f a).sum =
      ∑ j, D.column j v * (L.z2a j).elim 0 f := by
  rw [Labels.aPiv, sum_filterMap_finRange]
  refine Finset.sum_congr rfl fun j _ ↦ ?_
  rcases hj : L.z2a j with _ | a
  · rw [Option.elim_none, Option.elim_none, mul_zero]
  · have ha : e (.inr j) = .inl a := Sum.getLeft?_eq_some_iff.1 ((hL.z2a j).symm.trans hj)
    rw [Option.elim_some, Option.elim_some, ← ha, D.entry_nonbasic]

/-- The right-hand side at a `g` in `w`, from those of the `a` in `z`. -/
theorem const_of_inr (hL : L.Places e) (D : Dictionary M q e) {i : Fin n} {g : Fin (n + 1)}
    (hi : e (.inl i) = .inr g) :
    D.const i = -(L.aPiv.map fun a ↦ D.entry (.inr g) (.inl a) * q a).sum := by
  have hrow := (D.satisfies_iff _).2 satisfies_elim_zero i
  rw [Function.comp_apply, hi, Sum.elim_inr, Pi.zero_apply] at hrow
  rw [sum_aPiv hL, eq_neg_iff_add_eq_zero, add_comm]
  refine (congrArg (· + D.const i) (Finset.sum_congr rfl fun j _ ↦ ?_)).trans hrow.symm
  rw [← hi, D.column_basic, Function.comp_apply, hL.z2a]
  rcases e (.inr j) with a | g <;> rfl

/-- A column of a `g` in `z` at a `g` in `w`, from the column of `M`. -/
theorem coeff_of_inr (hL : L.Places e) (D : Dictionary M q e) {i : Fin n} {g : Fin (n + 1)}
    (hi : e (.inl i) = .inr g) {j : Fin (n + 1)} {g' : Fin (n + 1)} (hj : e (.inr j) = .inr g') :
    D.coeff i j = -(L.aPiv.map fun a ↦ D.entry (.inr g) (.inl a) * M a g').sum := by
  have hne : g ≠ g' := fun h ↦ by
    rw [h, ← hj] at hi
    exact Sum.inl_ne_inr (e.injective hi)
  have hrow := (D.satisfies_zero_iff _).2 (satisfies_elim_single g') i
  rw [Function.comp_apply, hi, Sum.elim_inr, Pi.single_eq_of_ne hne, Pi.zero_apply,
    add_zero] at hrow
  have hsingle : D.coeff i j = ∑ j', if j' = j then D.coeff i j' else 0 := by
    rw [Finset.sum_ite_eq' Finset.univ j, if_pos (Finset.mem_univ j)]
  rw [sum_aPiv hL, eq_neg_iff_add_eq_zero, hsingle, ← Finset.sum_add_distrib]
  refine (Finset.sum_congr rfl fun j' _ ↦ ?_).trans hrow.symm
  rw [← hi, D.column_basic, Function.comp_apply, hL.z2a]
  rcases hv : e (.inr j') with a | g''
  · have hjj : j' ≠ j := fun h ↦ by
      rw [h, hj] at hv
      cases hv
    rw [if_neg hjj, zero_add]
    rfl
  · by_cases hjj : j' = j
    · have hg : g'' = g' :=
        Sum.inr_injective ((hv.symm.trans (congrArg (e <| .inr ·) hjj)).trans hj)
      rw [if_pos hjj, Sum.elim_inr, hg, Pi.single_eq_same, mul_one]
      exact (congrArg _ (mul_zero _)).trans (add_zero _)
    · have hg : g'' ≠ g' := fun h ↦ hjj (Sum.inr_injective (e.injective (by rw [hv, h, hj])))
      rw [if_neg hjj, Sum.elim_inr, Pi.single_eq_of_ne hg, zero_add]
      rfl

end Entries

/-! ### Complementary choices of variables -/

/-- The variable is in `w`. -/
def InW (e : Var n ≃ Var n) (v : Var n) : Prop :=
  ∃ i, e (.inl i) = v

theorem not_inW_iff {e : Var n ≃ Var n} {v : Var n} : ¬ InW e v ↔ ∃ j, e (.inr j) = v := by
  constructor
  · intro h
    rcases hv : e.symm v with i | j
    · exact absurd ⟨i, by rw [← hv, e.apply_symm_apply]⟩ h
    · exact ⟨j, by rw [← hv, e.apply_symm_apply]⟩
  · rintro ⟨j, hj⟩ ⟨i, hi⟩
    exact Sum.inl_ne_inr (e.injective (hi.trans hj.symm))

theorem inW_exchanged_iff {e : Var n ≃ Var n} {r : Fin n} {c : Fin (n + 1)} {v : Var n} :
    InW (exchanged e r c) v ↔ v = e (.inr c) ∨ InW e v ∧ v ≠ e (.inl r) := by
  constructor
  · rintro ⟨i, rfl⟩
    rw [exchanged_inl]
    split
    · exact .inl rfl
    · next hi => exact .inr ⟨⟨i, rfl⟩, fun h ↦ hi (Sum.inl_injective (e.injective h))⟩
  · rintro (rfl | ⟨⟨i, rfl⟩, hne⟩)
    · exact ⟨r, by rw [exchanged_inl, if_pos rfl]⟩
    · exact ⟨i, by rw [exchanged_inl, if_neg fun h ↦ hne (congrArg (e <| .inl ·) h)]⟩

/-- Exactly one of `a i` and `g i` is in `w`. -/
def OneInW (e : Var n ≃ Var n) (i : Fin n) : Prop :=
  InW e (.inl i) ↔ ¬ InW e (.inr i.castSucc)

/-- The artificial variable is in `w`, neither `a k` nor `g k` is, and exactly one of `a i` and `g
i` for all other `i`. -/
structure Lacks (e : Var n ≃ Var n) (k : Fin n) : Prop where
  artificial : InW e (.inr (Fin.last n))
  not_a : ¬ InW e (.inl k)
  not_g : ¬ InW e (.inr k.castSucc)
  one : ∀ i, i ≠ k → OneInW e i

/-- The artificial variable is in `z`, and exactly one of `a i` and `g i` is in `w`. -/
structure Complementary (e : Var n ≃ Var n) : Prop where
  artificial : ¬ InW e (.inr (Fin.last n))
  one : ∀ i, OneInW e i

/-- The two variables with an index. -/
def IsOf (k : Fin n) (v : Var n) : Prop :=
  v = .inl k ∨ v = .inr k.castSucc

theorem inW_refl_iff {v : Var n} : InW (Equiv.refl _) v ↔ ∃ i, Sum.inl i = v :=
  Iff.rfl

/-- The first exchange: the artificial variable comes into `w`, and `a r` leaves it. -/
theorem lacks_start (r : Fin n) : Lacks (exchanged (Equiv.refl (Var n)) r (Fin.last n)) r := by
  have hcast (i : Fin n) : i.castSucc ≠ Fin.last n := Fin.castSucc_ne_last i
  constructor
  · exact inW_exchanged_iff.2 (.inl rfl)
  · simp [inW_exchanged_iff, inW_refl_iff]
  · simp [inW_exchanged_iff, inW_refl_iff, hcast]
  · intro i hi
    simp [OneInW, inW_exchanged_iff, inW_refl_iff, hcast, hi]

variable {e : Var n ≃ Var n} {k : Fin n} {r : Fin n} {c : Fin (n + 1)} {i : Fin n}

/-- An index that is neither that of the variable that comes nor that of the one that leaves. -/
theorem OneInW.exchange (h : OneInW e i) (hc : ¬ IsOf i (e (.inr c)))
    (hr : ¬ IsOf i (e (.inl r))) : OneInW (exchanged e r c) i := by
  rw [IsOf, not_or] at hc hr
  rw [OneInW, inW_exchanged_iff, inW_exchanged_iff]
  simp only [Ne.symm hc.1, Ne.symm hc.2, Ne.symm hr.1, Ne.symm hr.2, false_or, ne_eq,
    not_false_eq_true, and_true]
  exact h

theorem IsOf.eq {v : Var n} (hk : IsOf k v) (hi : IsOf i v) : k = i := by
  rcases hk with rfl | rfl <;> rcases hi with hi | hi
  · exact Sum.inl_injective hi
  · cases hi
  · cases hi
  · exact Fin.castSucc_injective n (Sum.inr_injective hi)

/-- The index that has no variable in `w` gets one. -/
theorem Lacks.oneInW_exchanged (h : Lacks e k) (hc : IsOf k (e (.inr c))) :
    OneInW (exchanged e r c) k := by
  rw [OneInW, inW_exchanged_iff, inW_exchanged_iff]
  rcases hc with hc | hc <;> simp [hc, h.not_a, h.not_g]

/-- When the artificial variable leaves, each index has one of its variables in `w`. -/
theorem Lacks.complementary (h : Lacks e k) (hc : IsOf k (e (.inr c)))
    (hr : e (.inl r) = .inr (Fin.last n)) : Complementary (exchanged e r c) where
  artificial hin := by
    rcases inW_exchanged_iff.1 hin with heq | ⟨-, hne⟩
    · rcases hc with hc | hc
      · rw [hc] at heq
        cases heq
      · exact Fin.castSucc_ne_last k (Sum.inr_injective (heq.trans hc)).symm
    · exact hne hr.symm
  one i := by
    by_cases hik : i = k
    · exact hik ▸ h.oneInW_exchanged hc
    · refine (h.one i hik).exchange (fun hi ↦ hik (hi.eq hc)) ?_
      rw [hr]
      rintro (heq | heq)
      · cases heq
      · exact Fin.castSucc_ne_last i (Sum.inr_injective heq).symm

/-- When another variable leaves, its index is the one that has none in `w`. -/
theorem Lacks.exchange (h : Lacks e k) (hc : IsOf k (e (.inr c)))
    (hr : IsOf i (e (.inl r))) : Lacks (exchanged e r c) i := by
  have hik : i ≠ k := by
    rintro rfl
    rcases hr with hr | hr
    · exact h.not_a ⟨r, hr⟩
    · exact h.not_g ⟨r, hr⟩
  have hnot {v : Var n} (hv : IsOf i v) (hother : v ≠ e (.inl r) → ¬ InW e v) :
      ¬ InW (exchanged e r c) v := by
    intro hin
    rcases inW_exchanged_iff.1 hin with heq | ⟨hold, hne⟩
    · exact hik (hv.eq (heq ▸ hc))
    · exact hother hne hold
  have hone := h.one i hik
  constructor
  · refine inW_exchanged_iff.2 (.inr ⟨h.artificial, ?_⟩)
    rcases hr with hr | hr <;> rw [hr]
    · exact Sum.inr_ne_inl
    · exact Sum.inr_injective.ne (Fin.castSucc_ne_last i).symm
  · refine hnot (.inl rfl) fun hne ↦ ?_
    rcases hr with hr | hr
    · exact absurd hr.symm hne
    · exact fun hin ↦ hone.1 hin ⟨r, hr⟩
  · refine hnot (.inr rfl) fun hne ↦ ?_
    rcases hr with hr | hr
    · exact hone.1 ⟨r, hr⟩
    · exact absurd hr.symm hne
  · intro i' hi'
    by_cases hik' : i' = k
    · exact hik' ▸ h.oneInW_exchanged hc
    · exact (h.one i' hik').exchange (fun hi ↦ hik' (hi.eq hc)) fun hi ↦
        hi' (hi.eq hr)

end OpenHRP.LCP
