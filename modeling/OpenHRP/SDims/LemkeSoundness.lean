import OpenHRP.SDims.LemkeMethod
import Mathlib.LinearAlgebra.Matrix.NonsingularInverse

/-!
# What Lemke's method returns

A turn of the loop keeps a dictionary of the equations (`Keeps`): the labels say where the variables
are, one index has neither of its variables in `w`, and the right-hand side is not negative. For
this the column of the variable that comes into `w` has to be right, and it is, unless it is the
column of `M12bar` that is not copied (`LemkeState.HoldsEntries`).

`isSolution_solvePivot` says that what is returned as a solution is one, when no turn meets other
numbers there.
-/

namespace OpenHRP.LCP

variable {n m : ℕ} {K : Type*}

/-! ### Positions in the lists -/

theorem getElem?_filterMap {α β : Type*} {f : α → Option β} {l : List α} {i : ℕ} {x : α} {y : β}
    (hi : l[i]? = some x) (hx : f x = some y) :
    (l.filterMap f)[(l.take i).countP fun x ↦ (f x).isSome]? = some y := by
  induction l generalizing i with
  | nil => cases hi
  | cons z l ih =>
    rcases i with _ | i
    · cases hi
      rw [List.filterMap_cons_some hx]
      rfl
    · rw [List.take_succ_cons, List.countP_cons]
      rcases hz : f z with _ | w
      · rw [List.filterMap_cons_none hz, Option.isSome_none, if_neg Bool.false_ne_true]
        exact ih hi
      · rw [List.filterMap_cons_some hz, Option.isSome_some, if_pos rfl, List.getElem?_cons_succ]
        exact ih hi

theorem countPiv_of_none {α : Type*} {array : Fin n → Option α} {i : Fin n} (h : array i = none) :
    countPiv array i = none := by
  rw [countPiv, h]
  rfl

/-- The position of an element of an array among those that are there. -/
theorem exists_countPiv {α : Type*} {array : Fin n → Option α} {i : Fin n} {x : α}
    (h : array i = some x) :
    ∃ t, countPiv array i = some t ∧ ((List.finRange n).filterMap array)[t]? = some x :=
  ⟨_, by rw [countPiv, h]; rfl,
    getElem?_filterMap (List.getElem?_eq_some_iff.2 ⟨by simp, by simp⟩) h⟩

/-- The position of a row among those that are no pivots, in a list that is there for these rows. -/
theorem getElem?_countBar {β : Type*} {piv : Fin n → Option ℕ} {f : Fin n → Option β}
    (hf : ∀ i, (f i).isSome = (piv i).isNone) {i : Fin n} {y : β} (hi : f i = some y) :
    ((List.finRange n).filterMap f)[countBar piv i]? = some y := by
  have hcount : countBar piv i = ((List.finRange n).take i).countP fun i' ↦ (f i').isSome := by
    rw [countBar]
    exact List.countP_congr fun i' _ ↦ by rw [hf]
  rw [hcount]
  exact getElem?_filterMap (List.getElem?_eq_some_iff.2 ⟨by simp, by simp⟩) hi

variable {L : Labels n} {e : Var n ≃ Var n}

theorem Labels.Places.exists_gPiv (hL : L.Places e) {i : Fin n} {g : Fin (n + 1)}
    (hi : e (.inl i) = .inr g) : ∃ t, countPiv L.w2g i = some t ∧ L.gPiv[t]? = some g :=
  exists_countPiv (by rw [hL.w2g, hi]; rfl)

theorem Labels.Places.exists_aPiv (hL : L.Places e) {j : Fin (n + 1)} {a : Fin n}
    (hj : e (.inr j) = .inl a) : ∃ t, countPiv L.z2a j = some t ∧ L.aPiv[t]? = some a :=
  exists_countPiv (by rw [hL.z2a, hj]; rfl)

theorem Labels.Places.getElem?_aBar (hL : L.Places e) {i a : Fin n} (hi : e (.inl i) = .inl a) :
    L.aBar[countBar (countPiv L.w2g) i]? = some a := by
  refine getElem?_countBar (fun i' ↦ ?_) ?_
  · rw [countPiv, hL.w2g, hL.w2a]
    rcases e (.inl i') with a | g <;> rfl
  · rw [hL.w2g, hL.w2a, hi]
    rfl

theorem Labels.Places.getElem?_gBar (hL : L.Places e) {j g : Fin (n + 1)}
    (hj : e (.inr j) = .inr g) : L.gBar[countBar (countPiv L.z2a) j]? = some g := by
  refine getElem?_countBar (fun j' ↦ ?_) ?_
  · rw [countPiv, hL.z2a, hL.z2g]
    rcases e (.inr j') with a | g <;> rfl
  · rw [hL.z2a, hL.z2g, hj]
    rfl

/-! ### The block pivot -/

/-- `inv_svd` is exact: it gives the inverse of a matrix that has one. -/
def ExactInverse [Field K] (inv : ℕ → (ℕ → ℕ → K) → ℕ → ℕ → K) : Prop :=
  ∀ k A B, (∀ i < k, ∀ j < k, mul k A B i j = if i = j then 1 else 0) →
    ∀ i < k, ∀ j < k, inv k A i j = B i j

section BlockPivot

variable [Field K] {inv : ℕ → (ℕ → ℕ → K) → ℕ → ℕ → K} {fresh : ℕ → ℕ → K}
  {M : Matrix (Fin n) (Fin (n + 1)) K} {q : Fin n → K}

/-- The inverse of the pivots, by the positions of its rows and columns. -/
def inverseOf (L : Labels n) (D : Dictionary M q e) (t t' : ℕ) : K :=
  L.gPiv[t]?.elim 0 fun g ↦ L.aPiv[t']?.elim 0 fun a ↦ D.entry (.inr g) (.inl a)

theorem mul_inverseOf (hL : L.Places e) (D : Dictionary M q e) {v t' : ℕ} {rows : List (Fin n)}
    {a a' : Fin n} (ha : rows[v]? = some a) (ha' : L.aPiv[t']? = some a') :
    mul L.gPiv.length (subMatrix M rows L.gPiv) (inverseOf L D) v t' =
      D.entry (.inl a) (.inl a') := by
  obtain ⟨j, hj⟩ := hL.mem_aPiv.1 (List.mem_of_getElem? ha')
  rw [mul, ← hj, D.entry_nonbasic, column_inl hL, hL.z2g, hj]
  refine (sum_range_length fun t g hg ↦ ?_).trans (add_zero _).symm
  rw [subMatrix, ha, inverseOf, hg, ha']
  simp only [Option.elim_some, ← hj, D.entry_nonbasic]

theorem mul_block_inverseOf (hL : L.Places e) (D : Dictionary M q e) {i j : ℕ}
    (hi : i < L.gPiv.length) (hj : j < L.gPiv.length) :
    mul L.gPiv.length (subMatrix M L.aPiv L.gPiv) (inverseOf L D) i j = if i = j then 1 else 0 := by
  have hget {i : ℕ} (hi : i < L.gPiv.length) : ∃ a, L.aPiv[i]? = some a :=
    ⟨_, List.getElem?_eq_getElem (hL.length_aPiv ▸ hi)⟩
  obtain ⟨a, ha⟩ := hget hi
  obtain ⟨a', ha'⟩ := hget hj
  obtain ⟨c, hc⟩ := hL.mem_aPiv.1 (List.mem_of_getElem? ha)
  obtain ⟨c', hc'⟩ := hL.mem_aPiv.1 (List.mem_of_getElem? ha')
  rw [mul_inverseOf hL D ha ha', ← hc, ← hc', D.entry_nonbasic, D.column_nonbasic, Pi.single_apply]
  refine if_congr ?_ rfl rfl
  rw [← List.getElem?_inj (hL.length_aPiv ▸ hi) hL.nodup_aPiv, ha, ha', Option.some_inj]
  constructor
  · rintro rfl
    exact Sum.inl_injective (hc.symm.trans hc')
  · rintro rfl
    exact Sum.inr_injective (e.injective (hc.trans hc'.symm))

theorem inv_m12 (hinv : ExactInverse inv) (hL : L.Places e) (D : Dictionary M q e) {t t' : ℕ}
    (ht : t < L.gPiv.length) (ht' : t' < L.gPiv.length) :
    inv L.gPiv.length (subMatrix M L.aPiv L.gPiv) t t' = inverseOf L D t t' :=
  hinv _ _ _ (fun _ hi _ hj ↦ mul_block_inverseOf hL D hi hj) t ht t' ht'

/-- A row of the inverse times a vector, over the positions of the `a` in `z`. -/
theorem sum_inv_m12 (hinv : ExactInverse inv) (hL : L.Places e) (D : Dictionary M q e) {t : ℕ}
    {g : Fin (n + 1)} (hg : L.gPiv[t]? = some g) {F : ℕ → K} {f : Fin n → K}
    (hF : ∀ s a, L.aPiv[s]? = some a → F s = f a) :
    ∑ s ∈ Finset.range L.gPiv.length,
        inv L.gPiv.length (subMatrix M L.aPiv L.gPiv) t s * F s =
      (L.aPiv.map fun a ↦ D.entry (.inr g) (.inl a) * f a).sum := by
  obtain ⟨ht, -⟩ := List.getElem?_eq_some_iff.1 hg
  rw [← hL.length_aPiv]
  refine sum_range_length fun s a ha ↦ ?_
  obtain ⟨hs, -⟩ := List.getElem?_eq_some_iff.1 ha
  rw [hL.length_aPiv] at hs ⊢
  rw [inv_m12 hinv hL D ht hs, inverseOf, hg, ha, hF s a ha, Option.elim_some, Option.elim_some]

/-- The block `m1` of the result. -/
theorem pivotBody_m1 (hinv : ExactInverse inv) (hL : L.Places e) (D : Dictionary M q e)
    {cols : List (Fin (n + 1))} {t u : ℕ} {g g' j : Fin (n + 1)} (hg : L.gPiv[t]? = some g)
    (hu : cols[u]? = some g') (hj : e (.inr j) = .inr g') :
    -mul L.gPiv.length (inv L.gPiv.length (subMatrix M L.aPiv L.gPiv))
      (subMatrix M L.aPiv cols) t u =
      D.column j (.inr g) := by
  obtain ⟨i, hi⟩ := hL.mem_gPiv.1 (List.mem_of_getElem? hg)
  rw [← hi, D.column_basic, coeff_of_inr hL D hi hj, mul]
  refine congrArg Neg.neg (sum_inv_m12 hinv hL D hg fun s a ha ↦ ?_)
  rw [subMatrix, ha, hu, Option.elim_some, Option.elim_some]

/-- The block `q1` of the result. -/
theorem pivotBody_q1 (hinv : ExactInverse inv) (hL : L.Places e) (D : Dictionary M q e) {t : ℕ}
    {g : Fin (n + 1)} (hg : L.gPiv[t]? = some g) :
    -mulVec L.gPiv.length (inv L.gPiv.length (subMatrix M L.aPiv L.gPiv)) (subVector q L.aPiv) t =
      D.basicSolution (.inr g) := by
  obtain ⟨i, hi⟩ := hL.mem_gPiv.1 (List.mem_of_getElem? hg)
  have hconst : D.basicSolution (e (.inl i)) = D.const i := congrFun D.basicSolution_comp (.inl i)
  rw [← hi, hconst, const_of_inr hL D hi, mulVec]
  refine congrArg Neg.neg (sum_inv_m12 hinv hL D hg fun s a ha ↦ ?_)
  rw [subVector, ha, Option.elim_some]

variable {i : Fin n} {j : Fin (n + 1)}

/-- The new right-hand side is that of the dictionary. -/
theorem pivotLabels_snd (hinv : ExactInverse inv) (hL : L.Places e) (D : Dictionary M q e)
    (hne : L.gPiv ≠ []) : (pivotLabels inv fresh L M q).2 = D.const := by
  funext i
  have hconst : D.basicSolution (e (.inl i)) = D.const i := congrFun D.basicSolution_comp (.inl i)
  rw [pivotLabels, if_neg fun h ↦ hne (List.length_eq_zero_iff.1 h), ← hconst]
  dsimp only [Blocks.elements, pivotBody]
  rcases hi : e (.inl i) with a | g
  · rw [countPiv_of_none (by rw [hL.w2g, hi]; rfl)]
    dsimp only
    have ha := hL.getElem?_aBar hi
    rw [basicSolution_inl hL, mulVec, subVector, ha, Option.elim_some, add_comm]
    congr 1
    refine sum_range_length fun s g hg ↦ ?_
    rw [subMatrix, ha, hg, pivotBody_q1 hinv hL D hg, Option.elim_some, Option.elim_some]
  · obtain ⟨t, ht, hg⟩ := hL.exists_gPiv hi
    rw [ht]
    exact pivotBody_q1 hinv hL D hg

/-- The new entries are those of the dictionary, where the memory of `M12bar` holds the entries that
are not copied. -/
theorem pivotLabels_fst (hinv : ExactInverse inv) (hL : L.Places e) (D : Dictionary M q e)
    (hne : L.gPiv ≠ []) (hfresh : ∀ t a g, L.aBar[t]? = some a →
      L.gBar[n - L.gPiv.length]? = some g → L.z2g j = some g →
      fresh t (n - L.gPiv.length) = M a g) :
    (pivotLabels inv fresh L M q).1 i j = D.coeff i j := by
  rw [pivotLabels, if_neg fun h ↦ hne (List.length_eq_zero_iff.1 h), ← D.column_basic]
  dsimp only [Blocks.entries, pivotBody]
  rcases hi : e (.inl i) with a | g
  · have ha := hL.getElem?_aBar hi
    rw [countPiv_of_none (by rw [hL.w2g, hi]; rfl)]
    rcases hj : e (.inr j) with a' | g'
    · obtain ⟨t', ht', ha'⟩ := hL.exists_aPiv hj
      rw [ht', ← D.entry_nonbasic, hj]
      dsimp only
      rw [← mul_inverseOf hL D ha ha', mul, mul]
      refine Finset.sum_congr rfl fun s hs ↦ ?_
      rw [inv_m12 hinv hL D (Finset.mem_range.1 hs)
        (hL.length_aPiv ▸ (List.getElem?_eq_some_iff.1 ha').1)]
    · have hg' := hL.getElem?_gBar hj
      rw [countPiv_of_none (by rw [hL.z2a, hj]; rfl)]
      dsimp only
      rw [column_inl hL, hL.z2g, hj, mul, add_comm]
      refine congrArg₂ (· + ·) (sum_range_length fun s g hg ↦ ?_) ?_
      · rw [subMatrix, ha, hg, pivotBody_m1 hinv hL D hg hg' hj, Option.elim_some, Option.elim_some]
      · have hlt := (List.getElem?_eq_some_iff.1 hg').1
        have hlength := hL.length_gBar
        split
        · rw [subMatrix, ha, hg']
          rfl
        · next hnot =>
          -- the one column that is left
          have hlast : countBar (countPiv L.z2a) j = n - L.gPiv.length := by omega
          rw [hlast] at hg' ⊢
          exact hfresh _ a g' ha hg' (by rw [hL.z2g, hj]; rfl)
  · obtain ⟨t, ht, hg⟩ := hL.exists_gPiv hi
    rw [ht]
    rcases hj : e (.inr j) with a' | g'
    · obtain ⟨t', ht', ha'⟩ := hL.exists_aPiv hj
      rw [ht', ← D.entry_nonbasic, hj]
      dsimp only
      rw [inv_m12 hinv hL D (List.getElem?_eq_some_iff.1 hg).1
        (hL.length_aPiv ▸ (List.getElem?_eq_some_iff.1 ha').1), inverseOf, hg, ha',
        Option.elim_some, Option.elim_some]
    · rw [countPiv_of_none (by rw [hL.z2a, hj]; rfl)]
      exact pivotBody_m1 hinv hL D hg (hL.getElem?_gBar hj) hj

/-! ### The first pivot -/

theorem idxOf?_singleton {k : ℕ} (r i : Fin k) : [r].idxOf? i = if i = r then some 0 else none := by
  rw [List.idxOf?, List.findIdx?_cons, List.findIdx?_nil, Option.map_none]
  split
  · next h => rw [if_pos (beq_iff_eq.1 h).symm]
  · next h => rw [if_neg fun hir ↦ h (beq_iff_eq.2 hir.symm)]

/-- The position of a row in the list of those that are not the row of the pivot. -/
theorem getElem?_notMem_singleton {k : ℕ} {r i : Fin k} (hi : i ≠ r) :
    ((List.finRange k).filter (· ∉ [r]))[countBar (fun i ↦ [r].idxOf? i) i]? = some i := by
  rw [← List.filterMap_eq_filter]
  refine getElem?_countBar (fun i' ↦ ?_) ?_
  · rw [idxOf?_singleton]
    by_cases h : i' = r <;> simp [h, Option.guard]
  · simp [Option.guard, hi]

/-- A pivot of one row and one column is an exchange. -/
theorem pivotIndices_singleton {c : Fin m} {M : Matrix (Fin n) (Fin m) K} {r : Fin n}
    (hinv : ExactInverse inv) (hne : M r c ≠ 0) :
    pivotIndices inv [r] [c] M q = (exchangeCoeff M r c, exchangeConst M q r c) := by
  have hone : inv 1 (subMatrix M [r] [c]) 0 0 = (M r c)⁻¹ := by
    refine hinv 1 _ (fun _ _ ↦ (M r c)⁻¹) (fun i hi j hj ↦ ?_) 0 one_pos 0 one_pos
    obtain rfl := Nat.lt_one_iff.1 hi
    obtain rfl := Nat.lt_one_iff.1 hj
    rw [mul, Finset.sum_range_one, if_pos rfl]
    exact mul_inv_cancel₀ hne
  refine Prod.ext (funext fun i ↦ funext fun j ↦ ?_) (funext fun i ↦ ?_)
  · dsimp only [pivotIndices, Blocks.entries, pivotBody, List.length_singleton]
    rw [exchangeCoeff]
    by_cases hi : i = r <;> by_cases hj : j = c
    · rw [if_pos hi, if_pos hj, idxOf?_singleton, idxOf?_singleton, if_pos hi, if_pos hj]
      exact hone
    · rw [if_pos hi, if_neg hj, idxOf?_singleton, idxOf?_singleton, if_pos hi, if_neg hj]
      dsimp only
      rw [mul, Finset.sum_range_one, hone, subMatrix, getElem?_notMem_singleton hj]
      exact congrArg Neg.neg (inv_mul_eq_div _ _)
    · rw [if_neg hi, if_pos hj, idxOf?_singleton, idxOf?_singleton, if_neg hi, if_pos hj]
      dsimp only
      rw [mul, Finset.sum_range_one, hone, subMatrix, getElem?_notMem_singleton hi]
      exact (div_eq_mul_inv _ _).symm
    · rw [if_neg hi, if_neg hj, idxOf?_singleton, idxOf?_singleton, if_neg hi, if_neg hj]
      dsimp only
      rw [mul, Finset.sum_range_one, mul, Finset.sum_range_one, hone]
      simp only [subMatrix, getElem?_notMem_singleton hi, getElem?_notMem_singleton hj,
        Option.elim_some, List.getElem?_cons_zero]
      ring
  · dsimp only [pivotIndices, Blocks.elements, pivotBody, List.length_singleton]
    rw [exchangeConst]
    by_cases hi : i = r
    · rw [if_pos hi, idxOf?_singleton, if_pos hi]
      dsimp only
      rw [mulVec, Finset.sum_range_one, hone, inv_mul_eq_div, neg_div]
      rfl
    · rw [if_neg hi, idxOf?_singleton, if_neg hi]
      dsimp only
      rw [mulVec, Finset.sum_range_one, mulVec, Finset.sum_range_one, hone]
      simp only [subMatrix, subVector, getElem?_notMem_singleton hi, Option.elim_some,
        List.getElem?_cons_zero]
      ring

end BlockPivot

/-! ### The row that leaves -/

section Row

variable [Field K] [LinearOrder K] [IsStrictOrderedRing K] {q mJr : Fin n → K}

/-- The rows that the ratio test looks at. -/
def MayLeave (q mJr : Fin n → K) (j : Fin n) : Prop :=
  0 ≤ q j ∧ mJr j < 0

/-- Without a tolerance the ratio test keeps one row, the first of least ratio. -/
theorem jsCand_spec {js : Fin n} {rest : List (Fin n)} (h : jsCand 0 q mJr = js :: rest) :
    rest = [] ∧ MayLeave q mJr js ∧
      ∀ j, MayLeave q mJr j → -q js / mJr js ≤ -q j / mJr j := by
  have hfold (l : List (Fin n)) :
      let s := l.foldl (addCandidate 0 q mJr) ([], 0)
      (s.1 = [] ∧ ∀ j ∈ l, ¬ MayLeave q mJr j) ∨
        ∃ js, s = ([js], -q js / mJr js) ∧ MayLeave q mJr js ∧
          ∀ j ∈ l, MayLeave q mJr j → -q js / mJr js ≤ -q j / mJr j := by
    induction l using List.reverseRecOn with
    | nil => exact .inl ⟨rfl, nofun⟩
    | append_singleton l j ih =>
      rw [List.foldl_append, List.foldl_cons, List.foldl_nil]
      by_cases hj : MayLeave q mJr j
      · have hstep (s : List (Fin n) × K) : addCandidate 0 q mJr s j =
            if s.1 = [] then ([j], -q j / mJr j) else
              if -q j / mJr j < s.2 then ([j], -q j / mJr j) else s := by
          rw [addCandidate, if_pos (show 0 ≤ q j ∧ mJr j < 0 from hj)]
          dsimp only
          rw [if_neg (abs_nonneg _).not_gt]
        rw [hstep]
        rcases ih with ⟨hnil, hnone⟩ | ⟨js, hs, hjs, hleast⟩
        · rw [if_pos hnil]
          refine .inr ⟨j, rfl, hj, fun j' hj' hmay ↦ ?_⟩
          rcases List.mem_append.1 hj' with hj' | hj'
          · exact absurd hmay (hnone j' hj')
          · rw [List.mem_singleton.1 hj']
        · rw [hs, if_neg (List.cons_ne_nil _ _)]
          split
          · next hlt =>
            refine .inr ⟨j, rfl, hj, fun j' hj' hmay ↦ ?_⟩
            rcases List.mem_append.1 hj' with hj' | hj'
            · exact hlt.le.trans (hleast j' hj' hmay)
            · rw [List.mem_singleton.1 hj']
          · next hnot =>
            refine .inr ⟨js, rfl, hjs, fun j' hj' hmay ↦ ?_⟩
            rcases List.mem_append.1 hj' with hj' | hj'
            · exact hleast j' hj' hmay
            · rw [List.mem_singleton.1 hj']
              exact not_lt.1 hnot
      · rw [addCandidate, if_neg (show ¬ (0 ≤ q j ∧ mJr j < 0) from hj)]
        rcases ih with ⟨hnil, hnone⟩ | ⟨js, hs, hjs, hleast⟩
        · refine .inl ⟨hnil, fun j' hj' ↦ ?_⟩
          rcases List.mem_append.1 hj' with hj' | hj'
          · exact hnone j' hj'
          · rwa [List.mem_singleton.1 hj']
        · refine .inr ⟨js, hs, hjs, fun j' hj' hmay ↦ ?_⟩
          rcases List.mem_append.1 hj' with hj' | hj'
          · exact hleast j' hj' hmay
          · exact absurd (List.mem_singleton.1 hj' ▸ hmay) hj
  rw [jsCand] at h
  rcases hfold (List.finRange n) with ⟨hnil, -⟩ | ⟨js', hs, hjs, hleast⟩
  · rw [hnil] at h
    cases h
  · rw [hs] at h
    cases h
    exact ⟨rfl, hjs, fun j hj ↦ hleast j (List.mem_finRange j) hj⟩

variable [CMath K] {P : LemkeProblem n K} {L : Labels n} {jr : Fin (n + 1)}

section

omit [IsStrictOrderedRing K] [CMath K]

/-- Of one row, that row is chosen. -/
theorem chooseRow_singleton (js : Fin n) (calls : ℕ) :
    chooseRow P L jr [js] none calls = (some js, calls + 1) := by
  rw [chooseRow]
  dsimp only [Option.elim_none, chooseRow]
  split <;> rfl

theorem chooseRow_nil (calls : ℕ) : chooseRow P L jr [] none calls = (none, calls) :=
  rfl

end

end Row

/-! ### Turns of the loop -/

section Turns

variable [Field K] [LinearOrder K] {P : LemkeProblem n K} {s s' : LemkeState n K}

/-- The column `jr` of `M_new` is one that `Pivot` has written as a whole, or the memory of `M12bar`
held the entries of `M` that were not copied into it: there is a column that is not copied when an
`a` is in `w`, that of the last `g` in `z`. -/
def LemkeState.HoldsEntries (P : LemkeProblem n K) (s : LemkeState n K) : Prop :=
  s.calls = 0 ∨ ∀ t a g, s.labels.aBar[t]? = some a →
    s.labels.gBar[n - s.labels.gPiv.length]? = some g → s.labels.z2g s.jr = some g →
      P.fresh (s.calls - 1) t (n - s.labels.gPiv.length) = extended P.N a g

/-- What holds before each turn, with the index `k` that has no variable in `w`. -/
structure Keeps (P : LemkeProblem n K) (s : LemkeState n K) (e : Var n ≃ Var n) (k : Fin n)
    (D : Dictionary (extended P.N) P.r e) : Prop where
  places : s.labels.Places e
  lacks : Lacks e k
  isOf : IsOf k (e (.inr s.jr))
  qNew : s.qNew = D.const
  nonneg : ∀ i, 0 ≤ D.const i
  column : s.HoldsEntries P → ∀ i, s.mNew i s.jr = D.coeff i s.jr

/-- The column of the complement is one of the same index. -/
theorem isOf_complementColumn {L : Labels n} {e : Var n ≃ Var n} (hL : L.Places e) {v : Var n}
    {jr : Fin (n + 1)} (hjr : complementColumn L v.getLeft? v.getRight? = some jr) :
    ∃ i, IsOf i v ∧ IsOf i (e (.inr jr)) := by
  rcases v with a | g
  · have hz := List.find?_some hjr
    rw [decide_eq_true_iff, hL.z2g, Sum.getRight?_eq_some_iff] at hz
    exact ⟨a, .inl rfl, .inr hz⟩
  · have hz := List.find?_some hjr
    rw [decide_eq_true_iff, hL.z2a, Option.map_eq_some_iff] at hz
    obtain ⟨a, ha, rfl⟩ := hz
    exact ⟨a, .inr rfl, .inl (Sum.getLeft?_eq_some_iff.1 ha)⟩

/-- With a right-hand side that is not negative, one `g` at least is in `w`. -/
theorem gPiv_ne_nil {L : Labels n} {e : Var n ≃ Var n} {M : Matrix (Fin n) (Fin (n + 1)) K}
    {q : Fin n → K} (hL : L.Places e) (D : Dictionary M q e) (hconst : ∀ i, 0 ≤ D.const i)
    (hq : ∃ a, q a < 0) : L.gPiv ≠ [] := by
  obtain ⟨a, ha⟩ := hq
  intro hnil
  have heq := basicSolution_inl hL D a
  rw [hnil, List.map_nil, List.sum_nil, zero_add] at heq
  exact (le_basicSolution le_rfl D hconst (.inl a)).not_gt (heq ▸ ha)

/-- What holds when the loop ends with a solution. -/
structure Solved (P : LemkeProblem n K) (s : LemkeState n K) (e : Var n ≃ Var n)
    (D : Dictionary (extended P.N) P.r e) : Prop where
  places : s.labels.Places e
  complementary : Complementary e
  qNew : s.qNew = D.const
  nonneg : ∀ i, 0 ≤ D.const i

variable [IsStrictOrderedRing K] [CMath K] {e : Var n ≃ Var n} {k : Fin n}
  {D : Dictionary (extended P.N) P.r e}

/-- One turn, when the column of the variable that comes is right. -/
theorem Keeps.turn (hk : Keeps P s e k D) (hexact : P.maxError = 0) (hinv : ExactInverse P.inv)
    (hr : ∃ a, P.r a < 0) (hholds : s.HoldsEntries P) :
    (∀ s', LCP.turn P s = .next s' → ∃ e' k' D', Keeps P s' e' k' D') ∧
      ∀ s', LCP.turn P s = .stop true s' → ∃ e' D', Solved P s' e' D' := by
  have hcol : (fun j ↦ s.mNew j s.jr) = fun j ↦ D.coeff j s.jr := funext (hk.column hholds)
  rw [LCP.turn, hexact, hk.qNew, hcol]
  rcases hcand : jsCand 0 D.const fun j ↦ D.coeff j s.jr with _ | ⟨js, rest⟩
  · rw [chooseRow_nil]
    exact ⟨nofun, nofun⟩
  · obtain ⟨rfl, ⟨-, hneg⟩, hleast⟩ := jsCand_spec hcand
    rw [chooseRow_singleton]
    dsimp only
    -- the exchange of the two variables, and what the block pivot makes of it
    set D' := D.exchange js s.jr hneg.ne
    have hL' : (s.labels.swapIndex js s.jr).Places (exchanged e js s.jr) :=
      hk.places.swapIndex js s.jr
    have hnonneg : ∀ i, 0 ≤ D'.const i :=
      exchangeConst_nonneg hk.nonneg hneg fun i hi ↦ hleast i ⟨hk.nonneg i, hi⟩
    have hpiv := gPiv_ne_nil hL' D' hnonneg hr
    have hysa : s.labels.w2a js = (e (.inl js)).getLeft? := hk.places.w2a js
    have hysg : (if (s.labels.w2a js).isSome then none else s.labels.w2g js) =
        (e (.inl js)).getRight? := by
      rw [hk.places.w2a, hk.places.w2g]
      rcases e (.inl js) with a | g <;> rfl
    rw [hysg, hysa, pivotLabels_snd hinv hL' D' hpiv]
    split
    · exact ⟨nofun, nofun⟩
    · split
      · next hlast =>
        refine ⟨nofun, fun s' h ↦ ?_⟩
        cases h
        exact ⟨_, D', hL', hk.lacks.complementary hk.isOf (Sum.getRight?_eq_some_iff.1 hlast), rfl,
          hnonneg⟩
      · split
        · next jr hjr =>
          refine ⟨fun s' h ↦ ?_, nofun⟩
          obtain ⟨i, hi, hi'⟩ := isOf_complementColumn hL' hjr
          cases h
          refine ⟨_, i, D', hL', hk.lacks.exchange hk.isOf hi, hi', rfl, hnonneg, fun hh i ↦ ?_⟩
          exact pivotLabels_fst hinv hL' D' hpiv (hh.resolve_left (Nat.succ_ne_zero _))
        · exact ⟨nofun, nofun⟩

/-- In every turn, the column of the variable that comes into `w` is right. -/
def ReadsEntries (P : LemkeProblem n K) : ℕ → LemkeState n K → Prop
  | 0, _ => True
  | left + 1, s => s.HoldsEntries P ∧ ∀ s', turn P s = .next s' → ReadsEntries P left s'

/-- The loop keeps the invariant to its end. -/
theorem Keeps.loop (hk : Keeps P s e k D) (hexact : P.maxError = 0) (hinv : ExactInverse P.inv)
    (hr : ∃ a, P.r a < 0) {left nIter nIter' : ℕ} (hreads : ReadsEntries P left s)
    (hloop : lemkeLoop P left s nIter = some (true, s', nIter')) :
    ∃ e' D', Solved P s' e' D' := by
  induction left generalizing s e k nIter with
  | zero => cases hloop
  | succ left ih =>
    obtain ⟨hnext, hstop⟩ := hk.turn hexact hinv hr hreads.1
    rw [lemkeLoop] at hloop
    split at hloop
    · next terminate s₁ hturn =>
      cases hloop
      exact hstop _ hturn
    · next s₁ hturn =>
      obtain ⟨e', k', D', hk'⟩ := hnext s₁ hturn
      exact ih hk' (hreads.2 s₁ hturn) hloop
    · cases hloop

omit [IsStrictOrderedRing K] [CMath K] in
/-- The first row that leaves has the least right-hand side. -/
theorem firstRow_spec {N : Matrix (Fin n) (Fin n) K} {r : Fin n → K} {jr : Fin n} {x : K}
    (h : firstRow (extended N) r = some (jr, x)) (j : Fin n) : r jr ≤ r j := by
  have hone (j : Fin n) : r j / extended N j (Fin.last n) = r j := by
    rw [extended, Fin.snoc_last, div_one]
  have hfold (l : List (Fin n)) :
      let best := l.foldl (fun best j ↦
        let qc := r j / extended N j (Fin.last n)
        if best.elim true fun b ↦ qc < b.2 then some (j, qc) else best) none
      (best = none ∧ l = []) ∨ ∃ jr, best = some (jr, r jr) ∧ ∀ j ∈ l, r jr ≤ r j := by
    induction l using List.reverseRecOn with
    | nil => exact .inl ⟨rfl, rfl⟩
    | append_singleton l j ih =>
      rw [List.foldl_append, List.foldl_cons, List.foldl_nil]
      rcases ih with ⟨hbest, rfl⟩ | ⟨jr, hbest, hleast⟩
      · refine .inr ⟨j, ?_, fun j' hj' ↦ (List.mem_singleton.1 hj' ▸ le_rfl)⟩
        rw [hbest, hone]
        rfl
      · rw [hbest, hone]
        by_cases hlt : r j < r jr
        · refine .inr ⟨j, if_pos (decide_eq_true hlt), fun j' hj' ↦ ?_⟩
          rcases List.mem_append.1 hj' with hl | hl
          · exact hlt.le.trans (hleast j' hl)
          · rw [List.mem_singleton.1 hl]
        · refine .inr ⟨jr, if_neg (fun h ↦ hlt (of_decide_eq_true h)), fun j' hj' ↦ ?_⟩
          rcases List.mem_append.1 hj' with hl | hl
          · exact hleast j' hl
          · rw [List.mem_singleton.1 hl]
            exact not_lt.1 hlt
  rcases hfold (List.finRange n) with ⟨hnone, -⟩ | ⟨jr', hsome, hleast⟩
  · rw [firstRow, hnone] at h
    cases h
  · rw [firstRow, hsome] at h
    cases h
    exact hleast j (List.mem_finRange j)

omit [CMath K] in
/-- The invariant before the first turn. -/
theorem keeps_start (hinv : ExactInverse P.inv) {jr : Fin n} (hneg : P.r jr < 0)
    (hleast : ∀ j, P.r jr ≤ P.r j) : ∃ e k D, Keeps P (P.start jr) e k D := by
  have hone (j : Fin n) : extended P.N j (Fin.last n) = 1 := Fin.snoc_last (α := fun _ ↦ K) _ _
  have hne : extended P.N jr (Fin.last n) ≠ 0 := by
    rw [hone]
    exact one_ne_zero
  have hpivot := pivotIndices_singleton (q := P.r) hinv hne
  refine ⟨_, jr, (Dictionary.refl (extended P.N) P.r).exchange jr (Fin.last n) hne,
    (Labels.places_initial n).swapIndex jr (Fin.last n), lacks_start jr, .inr ?_,
    congrArg Prod.snd hpivot, fun i ↦ ?_, fun _ i ↦ ?_⟩
  · exact (exchanged_inr _ _).trans (if_neg (Fin.castSucc_ne_last jr))
  · change 0 ≤ exchangeConst (extended P.N) P.r jr (Fin.last n) i
    rw [exchangeConst, hone, hone, div_one, one_mul]
    split
    · exact (neg_pos.2 hneg).le
    · rw [← sub_eq_add_neg]
      exact sub_nonneg.2 (hleast i)
  · exact congrFun (congrFun (congrArg Prod.fst hpivot) i) _

/-- A solution of the complementarity problem. -/
structure IsSolution (N : Matrix (Fin n) (Fin n) K) (r g a : Fin n → K) : Prop where
  eq : N.mulVec g + r = a
  g_nonneg : ∀ i, 0 ≤ g i
  a_nonneg : ∀ i, 0 ≤ a i
  complementary : ∀ i, g i * a i = 0

omit [IsStrictOrderedRing K] [CMath K] in
/-- What is read from the labels at the end is a solution. -/
theorem Solved.isSolution (h : Solved P s e D) :
    IsSolution P.N P.r (fun i ↦ gValues s.labels s.qNew i.castSucc)
      (aValues s.labels s.qNew) := by
  obtain ⟨hsatisfies, hzero⟩ := basicSolution_complementary h.complementary D
  have hle := le_basicSolution le_rfl D h.nonneg
  have hg : (fun i : Fin n ↦ gValues s.labels s.qNew i.castSucc) =
      fun i ↦ D.basicSolution (.inr i.castSucc) :=
    funext fun i ↦ h.qNew ▸ gValues_eq h.places D i.castSucc
  have ha : aValues s.labels s.qNew = fun i ↦ D.basicSolution (.inl i) :=
    funext fun i ↦ h.qNew ▸ aValues_eq h.places D i
  rw [hg, ha]
  exact ⟨funext hsatisfies, fun i ↦ hle _, fun i ↦ hle _, fun i ↦ mul_eq_zero.2 (hzero i)⟩

/-- In every turn of a call, the column of the variable that comes into `w` is right. -/
def LemkeProblem.ReadsEntries (P : LemkeProblem n K) (maxIteration : ℤ) : Prop :=
  ∀ jr x, firstRow (extended P.N) P.r = some (jr, x) →
    LCP.ReadsEntries P maxIteration.toNat (P.start jr)

/-- **What Lemke's method returns is a solution**, when no turn enters a column of `M12bar` that is
not copied, with other numbers in it than the entries of `M`. -/
theorem isSolution_solvePivot (hexact : P.maxError = 0) (hinv : ExactInverse P.inv)
    {maxIteration : ℤ} (hreads : P.ReadsEntries maxIteration) {res : LemkeResult n K}
    (hsolve : solvePivot P maxIteration = some res) (hok : res.failed = false) :
    IsSolution P.N P.r res.g res.a := by
  rw [solvePivot] at hsolve
  split at hsolve
  · next hr =>
    cases hsolve
    exact ⟨by rw [Matrix.mulVec_zero, zero_add], fun _ ↦ le_rfl, hr, fun _ ↦ zero_mul _⟩
  · next hr =>
    rw [not_forall] at hr
    obtain ⟨a, ha⟩ := hr
    split at hsolve
    · cases hsolve
    · next jr x hfirst =>
      have hleast := firstRow_spec hfirst
      obtain ⟨e, k, D, hk⟩ := keeps_start hinv ((hleast a).trans_lt (not_le.1 ha)) hleast
      split at hsolve
      · cases hsolve
      · cases hsolve
        cases hok
      · next s nIter hloop =>
        obtain ⟨e', D', hsolved⟩ :=
          hk.loop hexact hinv ⟨a, not_le.1 ha⟩ (hreads jr x hfirst) hloop
        split at hsolve
        · cases hsolve
          exact hsolved.isSolution
        · cases hsolve

end Turns

/-! ### Two problems -/

/-- Inverses by the adjugate. -/
def adjugateInverse (k : ℕ) (A : ℕ → ℕ → ℚ) (i j : ℕ) : ℚ :=
  if h : i < k ∧ j < k then
    let B : Matrix (Fin k) (Fin k) ℚ := .of fun i j ↦ A i j
    B.adjugate ⟨i, h.1⟩ ⟨j, h.2⟩ / B.det
  else 0

theorem exactInverse_adjugateInverse : ExactInverse adjugateInverse := by
  intro k A B hAB i hi j hj
  set A' : Matrix (Fin k) (Fin k) ℚ := .of fun i j ↦ A i j with hA'
  set B' : Matrix (Fin k) (Fin k) ℚ := .of fun i j ↦ B i j with hB'
  have hone : A' * B' = 1 := by
    ext i j
    rw [Matrix.mul_apply, Matrix.one_apply, ← if_congr Fin.ext_iff.symm rfl rfl,
      ← hAB i i.2 j j.2, mul, Finset.sum_range]
    rfl
  have hentry : B' ⟨i, hi⟩ ⟨j, hj⟩ = A'.adjugate ⟨i, hi⟩ ⟨j, hj⟩ / A'.det := by
    rw [← Matrix.inv_eq_right_inv hone, Matrix.inv_def, Ring.inverse_eq_inv', Matrix.smul_apply,
      smul_eq_mul, inv_mul_eq_div]
  rw [adjugateInverse, dif_pos ⟨hi, hj⟩]
  exact hentry.symm

/-- One contact that is pushed in. -/
def oneContact : LemkeProblem 1 ℚ where
  N := 1
  r _ := -1
  maxError := 0
  inv := adjugateInverse
  fresh _ _ _ := 0

theorem isSolution_solvePivot_oneContact : ∃ res, solvePivot oneContact 1 = some res ∧
    res.failed = false ∧ IsSolution oneContact.N oneContact.r res.g res.a := by
  have hrun : (solvePivot oneContact 1).map LemkeResult.failed = some false := by decide +kernel
  obtain ⟨res, hres, hok⟩ := Option.map_eq_some_iff.1 hrun
  refine ⟨res, hres, hok, isSolution_solvePivot rfl exactInverse_adjugateInverse ?_ hres hok⟩
  intro jr x hfirst
  refine ⟨.inl rfl, fun s' hnext ↦ ?_⟩
  exact trivial

/-- Three contacts; the memory that is allocated for matrices holds zeros. -/
def threeContacts : LemkeProblem 3 ℚ where
  N := !![0, 0, 1; 0, 0, -1; -1, 1, 0]
  r := ![-1, 0, 1]
  maxError := 0
  inv := adjugateInverse
  fresh _ _ _ := 0

/-- The second turn takes a zero for the entry of `a 1`, and another row leaves: `a 1` becomes
negative. -/
theorem not_isSolution_threeContacts : ExactInverse threeContacts.inv ∧
    ∃ res, solvePivot threeContacts 10 = some res ∧ res.failed = false ∧ res.a 1 = -1 ∧
      ¬ IsSolution threeContacts.N threeContacts.r res.g res.a := by
  have hrun : (solvePivot threeContacts 10).map (fun res ↦ (res.failed, res.a 1)) =
      some (false, -1) := by
    decide +kernel
  obtain ⟨res, hres, hok⟩ := Option.map_eq_some_iff.1 hrun
  obtain ⟨hfailed, ha⟩ := Prod.ext_iff.1 hok
  refine ⟨exactInverse_adjugateInverse, res, hres, hfailed, ha, fun h ↦ ?_⟩
  have hnonneg := h.a_nonneg 1
  rw [show res.a 1 = -1 from ha] at hnonneg
  norm_num at hnonneg

end OpenHRP.LCP
