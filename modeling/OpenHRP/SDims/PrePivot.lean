import OpenHRP.Foundations.BlockExchange
import OpenHRP.SDims.LemkeSoundness

/-!
# Pivots before the first turn

`Pivot` with index arrays exchanges all the variables that the arrays have moved. A caller that
knows some of the variables that are not zero moves them before it solves the system. Then `w` and
`z` have the same number of variables, `M12bar` is copied whole, and what `Pivot` returns is the
exchanged system (`pivotArrays_exchangeArrays`).
-/

namespace OpenHRP.LCP

variable {n m : ℕ} {K : Type*} [Field K]

/-- The index arrays of a system with `n` rows and `m` columns. -/
structure IndexArrays (n m : ℕ) where
  w2a : Fin n → Option (Fin n)
  w2g : Fin n → Option (Fin m)
  z2a : Fin m → Option (Fin n)
  z2g : Fin m → Option (Fin m)

/-- `Pivot` for index arrays: `M_new` and `q_new`. The memory of `M12bar` holds `fresh` when it is
allocated. -/
def pivotArrays (inv : ℕ → (ℕ → ℕ → K) → ℕ → ℕ → K) (fresh : ℕ → ℕ → K) (A : IndexArrays n m)
    (M : Matrix (Fin n) (Fin m) K) (q : Fin n → K) : Matrix (Fin n) (Fin m) K × (Fin n → K) :=
  let gPiv := (List.finRange n).filterMap A.w2g
  let aBar := (List.finRange n).filterMap fun i ↦ if (A.w2g i).isSome then none else A.w2a i
  let aPiv := (List.finRange m).filterMap A.z2a
  let gBar := (List.finRange m).filterMap fun j ↦ if (A.z2a j).isSome then none else A.z2g j
  let nPivot := gPiv.length
  if nPivot = 0 then (M, q)
  else
    let nRowBar := n - nPivot
    let B := pivotBody inv nPivot
      { m12 := subMatrix M aPiv gPiv
        m1 := subMatrix M aPiv gBar
        m2 := subMatrix M aBar gPiv
        m12bar := fun i j ↦ if j < nRowBar then subMatrix M aBar gBar i j else fresh i j
        q1 := subVector q aPiv
        q1bar := subVector q aBar }
    (B.entries (countPiv A.w2g) (countPiv A.z2a), B.elements (countPiv A.w2g))

/-- In the turns of Lemke's method there is one column more than there are rows. -/
theorem pivotLabels_eq_pivotArrays (inv : ℕ → (ℕ → ℕ → K) → ℕ → ℕ → K) (fresh : ℕ → ℕ → K)
    (L : Labels n) (M : Matrix (Fin n) (Fin (n + 1)) K) (q : Fin n → K) :
    pivotLabels inv fresh L M q = pivotArrays inv fresh ⟨L.w2a, L.w2g, L.z2a, L.z2g⟩ M q :=
  rfl

/-- The arrays in which `a i` and `g i` have changed places where `P i`. -/
def exchangeArrays (P : Fin n → Prop) [DecidablePred P] : IndexArrays n n where
  w2a i := if P i then none else some i
  w2g i := if P i then some i else none
  z2a i := if P i then some i else none
  z2g i := if P i then none else some i

section Exchange

variable {P : Fin n → Prop} [DecidablePred P]

/-- The pivots, in order. -/
def pivotList (P : Fin n → Prop) [DecidablePred P] : List (Fin n) :=
  (List.finRange n).filterMap fun i ↦ if P i then some i else none

/-- The other rows, in order. -/
def barList (P : Fin n → Prop) [DecidablePred P] : List (Fin n) :=
  (List.finRange n).filterMap fun i ↦
    if (if P i then some i else none : Option (Fin n)).isSome then none
    else if P i then none else some i

variable {i : Fin n}

theorem mem_pivotList : i ∈ pivotList P ↔ P i := by
  rw [pivotList, List.mem_filterMap]
  constructor
  · rintro ⟨j, -, hj⟩
    split at hj
    · next hP => exact Option.some_inj.1 hj ▸ hP
    · cases hj
  · exact fun hi ↦ ⟨i, List.mem_finRange i, if_pos hi⟩

theorem pivotList_eq_filter : pivotList P = (List.finRange n).filter P := by
  rw [pivotList, ← List.filterMap_eq_filter]
  refine congrArg (List.filterMap · _) (funext fun i ↦ ?_)
  by_cases hi : P i <;> simp [hi, Option.guard]

theorem nodup_pivotList : (pivotList P).Nodup := by
  rw [pivotList_eq_filter]
  exact (List.nodup_finRange n).filter _

theorem exists_pivotList (hi : P i) :
    ∃ t, countPiv (exchangeArrays P).w2g i = some t ∧ (pivotList P)[t]? = some i :=
  exists_countPiv (if_pos hi)

theorem getElem?_barList (hi : ¬ P i) :
    (barList P)[countBar (countPiv (exchangeArrays P).w2g) i]? = some i := by
  refine getElem?_countBar (fun j ↦ ?_) ?_
  · rw [countPiv]
    dsimp only [exchangeArrays]
    by_cases hj : P j <;> simp [hj]
  · simp [hi]

theorem countBar_lt (hi : ¬ P i) :
    countBar (countPiv (exchangeArrays P).w2g) i < n - (pivotList P).length := by
  have hlt := (List.getElem?_eq_some_iff.1 (getElem?_barList hi)).1
  have hbar : barList P = (List.finRange n).filter fun i ↦ ¬ P i := by
    rw [barList, ← List.filterMap_eq_filter]
    refine congrArg (List.filterMap · _) (funext fun i ↦ ?_)
    by_cases hi : P i <;> simp [hi, Option.guard]
  have hsum := List.length_eq_length_filter_add P (l := List.finRange n)
  rw [List.length_finRange, ← pivotList_eq_filter] at hsum
  rw [hbar] at hlt
  simp only [decide_not] at hlt
  omega

theorem subMatrix_of_getElem? {M : Matrix (Fin n) (Fin m) K} {rows : List (Fin n)}
    {cols : List (Fin m)} {t s : ℕ} {j : Fin m} (hi : rows[t]? = some i) (hj : cols[s]? = some j) :
    subMatrix M rows cols t s = M i j := by
  rw [subMatrix, hi, hj]
  rfl

theorem subVector_of_getElem? {q : Fin n → K} {rows : List (Fin n)} {t : ℕ} (hi : rows[t]? = some i)
    : subVector q rows t = q i := by
  rw [subVector, hi]
  rfl

/-- A sum over the positions of the pivots. -/
theorem sum_pivotList {F : ℕ → K} {f : Fin n → K}
    (h : ∀ t k, (pivotList P)[t]? = some k → F t = f k) :
    ∑ t ∈ Finset.range (pivotList P).length, F t = ∑ k with P k, f k := by
  rw [sum_range_length h, pivotList_eq_filter,
    ← List.sum_toFinset _ ((List.nodup_finRange n).filter _)]
  exact Finset.sum_congr (Finset.ext fun k ↦ by simp) fun _ _ ↦ rfl

variable {inv : ℕ → (ℕ → ℕ → K) → ℕ → ℕ → K} {fresh : ℕ → ℕ → K} {M D : Matrix (Fin n) (Fin n) K}
  {q : Fin n → K}

/-- The inverse of the block, by positions. -/
theorem inv_subMatrix_pivotList (hinv : ExactInverse inv) (hD : IsBlockInverse P M D) {t s : ℕ}
    {i j : Fin n} (hi : (pivotList P)[t]? = some i) (hj : (pivotList P)[s]? = some j) :
    inv (pivotList P).length (subMatrix M (pivotList P) (pivotList P)) t s = D i j := by
  have hlt {t : ℕ} {i : Fin n} (h : (pivotList P)[t]? = some i) : t < (pivotList P).length :=
    (List.getElem?_eq_some_iff.1 h).1
  have hB := hinv (pivotList P).length (subMatrix M (pivotList P) (pivotList P))
    (fun t s ↦ (pivotList P)[t]?.elim 0 fun i ↦ (pivotList P)[s]?.elim 0 (D i)) ?_ t (hlt hi) s
    (hlt hj)
  · rw [hB, hi, hj]
    rfl
  · intro t' ht' s' hs'
    have hi' := List.getElem?_eq_getElem ht'
    have hj' := List.getElem?_eq_getElem hs'
    set i' := (pivotList P)[t']
    set j' := (pivotList P)[s']
    have hPi : P i' := mem_pivotList.1 (List.mem_of_getElem? hi')
    have hPj : P j' := mem_pivotList.1 (List.mem_of_getElem? hj')
    calc mul (pivotList P).length (subMatrix M (pivotList P) (pivotList P)) _ t' s'
        = ∑ k with P k, M i' k * D k j' := sum_pivotList fun u k hk ↦ by
          rw [subMatrix, hi', hk, hj']
          rfl
      _ = if i' = j' then 1 else 0 := hD i' hPi j' hPj
      _ = if t' = s' then 1 else 0 := by
          refine if_congr ?_ rfl rfl
          rw [← List.getElem?_inj ht' nodup_pivotList, hi', hj', Option.some_inj]

/-- A row of the inverse times a vector. -/
theorem sum_inv_pivotList (hinv : ExactInverse inv) (hD : IsBlockInverse P M D) {t : ℕ}
    (hi : (pivotList P)[t]? = some i) {F : ℕ → K} {f : Fin n → K}
    (h : ∀ s k, (pivotList P)[s]? = some k → F s = f k) :
    ∑ s ∈ Finset.range (pivotList P).length,
        inv (pivotList P).length (subMatrix M (pivotList P) (pivotList P)) t s * F s =
      ∑ k with P k, D i k * f k :=
  sum_pivotList fun s k hk ↦ by rw [inv_subMatrix_pivotList hinv hD hi hk, h s k hk]

/-- **`Pivot` gives the exchanged system.** -/
theorem pivotArrays_exchangeArrays (hinv : ExactInverse inv) (hD : IsBlockInverse P M D) :
    pivotArrays inv fresh (exchangeArrays P) M q =
      (exchangedMatrix P M D, exchangedVector P M D q) := by
  by_cases hnil : (pivotList P).length = 0
  · -- without pivots nothing changes
    have hnone (i : Fin n) : ¬ P i := fun hi ↦
      List.not_mem_nil (List.length_eq_zero_iff.1 hnil ▸ mem_pivotList.2 hi)
    rw [pivotArrays]
    refine (if_pos hnil).trans (Prod.ext (funext fun i ↦ funext fun j ↦ ?_) (funext fun i ↦ ?_))
    · simp [exchangedMatrix, hnone]
    · simp [exchangedVector, hnone]
  · rw [pivotArrays]
    refine (if_neg hnil).trans (Prod.ext (funext fun i ↦ funext fun j ↦ ?_) (funext fun i ↦ ?_))
    · dsimp only [Blocks.entries, pivotBody]
      rw [exchangedMatrix]
      by_cases hi : P i
      · obtain ⟨t, ht, hti⟩ := exists_pivotList hi
        rw [ht, if_pos hi]
        by_cases hj : P j
        · obtain ⟨s, hs, hsj⟩ := exists_pivotList hj
          rw [if_pos hj]
          refine Eq.trans ?_ (inv_subMatrix_pivotList hinv hD hti hsj)
          rw [show countPiv (exchangeArrays P).z2a j = some s from hs]
          rfl
        · have hj' := getElem?_barList hj
          rw [if_neg hj, show countPiv (exchangeArrays P).z2a j = none from
            countPiv_of_none (if_neg hj)]
          refine congrArg Neg.neg (sum_inv_pivotList hinv hD hti fun s k hk ↦ ?_)
          exact subMatrix_of_getElem? hk hj'
      · have hi' := getElem?_barList hi
        rw [show countPiv (exchangeArrays P).w2g i = none from countPiv_of_none (if_neg hi),
          if_neg hi]
        by_cases hj : P j
        · obtain ⟨s, hs, hsj⟩ := exists_pivotList hj
          rw [if_pos hj, show countPiv (exchangeArrays P).z2a j = some s from hs]
          refine sum_pivotList fun u k hk ↦ ?_
          exact congrArg₂ (· * ·) (subMatrix_of_getElem? hi' hk)
            (inv_subMatrix_pivotList hinv hD hk hsj)
        · have hj' := getElem?_barList hj
          rw [if_neg hj, show countPiv (exchangeArrays P).z2a j = none from
            countPiv_of_none (if_neg hj)]
          refine congrArg₂ (· + ·) ?_ (sum_pivotList fun u k hk ↦ ?_)
          · exact (if_pos (countBar_lt hj)).trans (subMatrix_of_getElem? hi' hj')
          · refine congrArg₂ (· * ·) (subMatrix_of_getElem? hi' hk) (congrArg Neg.neg ?_)
            exact sum_inv_pivotList hinv hD hk fun s l hl ↦ subMatrix_of_getElem? hl hj'
    · dsimp only [Blocks.elements, pivotBody]
      have hrow {t : ℕ} {k : Fin n} (hk : (pivotList P)[t]? = some k) :=
        congrArg Neg.neg (sum_inv_pivotList (f := q) hinv hD hk fun s l hl ↦
          subVector_of_getElem? hl)
      rw [exchangedVector]
      by_cases hi : P i
      · obtain ⟨t, ht, hti⟩ := exists_pivotList hi
        rw [ht, if_pos hi]
        exact hrow hti
      · have hi' := getElem?_barList hi
        rw [show countPiv (exchangeArrays P).w2g i = none from countPiv_of_none (if_neg hi),
          if_neg hi]
        refine congrArg₂ (· + ·) (subVector_of_getElem? hi') (sum_pivotList fun u k hk ↦ ?_)
        exact congrArg₂ (· * ·) (subMatrix_of_getElem? hi' hk) (hrow hk)

end Exchange

end OpenHRP.LCP
