import OpenHRP.SDims.LCPNode
import OpenHRP.SDims.LemkeSoundness

/-!
# The inverse of the pivots from node to node

The inverse of `Maa` has the entries of the dictionary at the `g` in `w` and the `a` in `z`
(`HoldsInverse`). The four updates of the inverse are the exchange of two variables, written down
for these entries (`holdsInverse_newMinv`), and from the inverse come the column and the right-hand
side of the dictionary (`columnOf_eq`, `constOf_eq`).
-/

namespace OpenHRP.LCP

variable {n : ℕ} {K : Type*}

/-! ### Lists without an element -/

section Positions

variable {α : Type*} [DecidableEq α] {l : List α} {x v : α}

theorem map_others (l : List α) (x : α) :
    (others l x).map (l[·]?) = (l.filter (· ≠ x)).map some := by
  have hrange : (List.range l.length).map (l[·]?) = l.map some :=
    List.ext_getElem? fun i ↦ by by_cases hi : i < l.length <;> simp [hi]
  have hfilter := congrArg (List.filter (· ≠ some x)) hrange
  rw [List.filter_map, List.filter_map] at hfilter
  simpa [others, Function.comp_def] using hfilter

/-- The counter at the position of another element. -/
theorem getElem?_others {i : ℕ} (hi : l[i]? = some v) (hv : v ≠ x) :
    (others l x)[countOthers l x i]? = some i := by
  have hlt := (List.getElem?_eq_some_iff.1 hi).1
  have hget := getElem?_filterMap (l := List.range l.length) (i := i) (x := i) (y := i)
    (f := Option.guard fun t ↦ decide (l[t]? ≠ some x)) (by simp [hlt]) (by simp [hi, hv])
  rw [List.filterMap_eq_filter] at hget
  simpa [others, countOthers] using hget

theorem exists_others {c : ℕ} (h : (l.filter (· ≠ x))[c]? = some v) :
    ∃ i, (others l x)[c]? = some i ∧ l[i]? = some v := by
  have hmap := congrArg (·[c]?) (map_others l x)
  simp only [List.getElem?_map, h, Option.map_some, Option.map_eq_some_iff] at hmap
  exact hmap

theorem getElem?_filter_ne {i : ℕ} (hi : l[i]? = some v) (hv : v ≠ x) :
    (l.filter (· ≠ x))[countOthers l x i]? = some v := by
  have hmap := congrArg (·[countOthers l x i]?) (map_others l x)
  rw [List.getElem?_map, List.getElem?_map, getElem?_others hi hv, Option.map_some, hi] at hmap
  obtain ⟨w, hw, heq⟩ := Option.map_eq_some_iff.1 hmap.symm
  rw [hw, Option.some_inj.1 heq]

theorem length_filter_ne (hl : l.Nodup) (hx : x ∈ l) :
    (l.filter (· ≠ x)).length = l.length - 1 := by
  rw [← List.length_erase_of_mem hx, hl.erase_eq_filter]
  refine congrArg _ (List.filter_congr fun y _ ↦ ?_)
  by_cases hy : y = x <;> simp [hy]

variable {m : ℕ} {f : Fin m → Option α} {k : Fin m} {y : α}

/-- An element of an array is taken away. -/
theorem filterMap_update_none (hk : f k = some x) (hinj : ∀ j, f j = some x → j = k) :
    (List.finRange m).filterMap (Function.update f k none) =
      ((List.finRange m).filterMap f).filter (· ≠ x) := by
  rw [List.filter_filterMap]
  refine List.filterMap_congr fun j _ ↦ ?_
  by_cases hj : j = k
  · rw [hj, Function.update_self, hk]
    simp [Option.filter]
  · rw [Function.update_of_ne hj]
    rcases hf : f j with _ | z
    · rfl
    · have hz : z ≠ x := fun h ↦ hj (hinj j (h ▸ hf))
      simp [Option.filter, hz]

/-- An element of an array is replaced. -/
theorem filterMap_update_some (hk : f k = some x) (hinj : ∀ j, f j = some x → j = k) (y : α) :
    (List.finRange m).filterMap (Function.update f k (some y)) =
      ((List.finRange m).filterMap f).map fun z ↦ if z = x then y else z := by
  rw [List.map_filterMap]
  refine List.filterMap_congr fun j _ ↦ ?_
  by_cases hj : j = k
  · rw [hj, Function.update_self, hk]
    simp
  · rw [Function.update_of_ne hj]
    rcases hf : f j with _ | z
    · rfl
    · have hz : z ≠ x := fun h ↦ hj (hinj j (h ▸ hf))
      simp [hz]

end Positions

/-! ### The lists after an exchange -/

section Lists

variable {L : Labels n} {e : Var n ≃ Var n} {js : Fin n} {jr : Fin (n + 1)}

theorem Labels.Places.w2g_injective (hL : L.Places e) {i i' : Fin n} {g : Fin (n + 1)}
    (hi : L.w2g i = some g) (hi' : L.w2g i' = some g) : i' = i := by
  rw [hL.w2g, Sum.getRight?_eq_some_iff] at hi hi'
  exact Sum.inl_injective (e.injective (hi'.trans hi.symm))

theorem Labels.Places.z2a_injective (hL : L.Places e) {j j' : Fin (n + 1)} {a : Fin n}
    (hj : L.z2a j = some a) (hj' : L.z2a j' = some a) : j' = j := by
  rw [hL.z2a, Sum.getLeft?_eq_some_iff] at hj hj'
  exact Sum.inr_injective (e.injective (hj'.trans hj.symm))

/-- The `g` in `w` are the same when an `a` takes the place of an `a`. -/
theorem gPiv_swapIndex_self (h : L.w2g js = L.z2g jr) : (L.swapIndex js jr).gPiv = L.gPiv := by
  rw [Labels.gPiv, Labels.swapIndex, ← h, Function.update_eq_self, Labels.gPiv]

theorem aPiv_swapIndex_self (h : L.z2a jr = L.w2a js) : (L.swapIndex js jr).aPiv = L.aPiv := by
  rw [Labels.aPiv, Labels.swapIndex, ← h, Function.update_eq_self, Labels.aPiv]

theorem gPiv_swapIndex_none (hL : L.Places e) {ys : Fin (n + 1)} (hs : L.w2g js = some ys)
    (hr : L.z2g jr = none) : (L.swapIndex js jr).gPiv = L.gPiv.filter (· ≠ ys) := by
  rw [Labels.gPiv, Labels.swapIndex, hr]
  exact filterMap_update_none hs fun i hi ↦ hL.w2g_injective hs hi

theorem aPiv_swapIndex_none (hL : L.Places e) {yr : Fin n} (hr : L.z2a jr = some yr)
    (hs : L.w2a js = none) : (L.swapIndex js jr).aPiv = L.aPiv.filter (· ≠ yr) := by
  rw [Labels.aPiv, Labels.swapIndex, hs]
  exact filterMap_update_none hr fun j hj ↦ hL.z2a_injective hr hj

theorem gPiv_swapIndex_some (hL : L.Places e) {ys yr : Fin (n + 1)} (hs : L.w2g js = some ys)
    (hr : L.z2g jr = some yr) :
    (L.swapIndex js jr).gPiv = L.gPiv.map fun z ↦ if z = ys then yr else z := by
  rw [Labels.gPiv, Labels.swapIndex, hr]
  exact filterMap_update_some hs (fun i hi ↦ hL.w2g_injective hs hi) yr

theorem aPiv_swapIndex_some (hL : L.Places e) {ys yr : Fin n} (hr : L.z2a jr = some yr)
    (hs : L.w2a js = some ys) :
    (L.swapIndex js jr).aPiv = L.aPiv.map fun z ↦ if z = yr then ys else z := by
  rw [Labels.aPiv, Labels.swapIndex, hs]
  exact filterMap_update_some hr (fun j hj ↦ hL.z2a_injective hr hj) ys

theorem swapIndex_swapIndex (L : Labels n) (js : Fin n) (jr : Fin (n + 1)) :
    (L.swapIndex js jr).swapIndex js jr = L := by
  simp [Labels.swapIndex]

theorem gPiv_filter_swapIndex (hL : L.Places e) {yr : Fin (n + 1)} (hs : L.w2g js = none)
    (hr : L.z2g jr = some yr) : (L.swapIndex js jr).gPiv.filter (· ≠ yr) = L.gPiv := by
  have hs' : (L.swapIndex js jr).w2g js = some yr := by simpa [Labels.swapIndex]
  have hr' : (L.swapIndex js jr).z2g jr = none := by simpa [Labels.swapIndex]
  rw [← gPiv_swapIndex_none (hL.swapIndex js jr) hs' hr', swapIndex_swapIndex]

theorem aPiv_filter_swapIndex (hL : L.Places e) {ys : Fin n} (hr : L.z2a jr = none)
    (hs : L.w2a js = some ys) : (L.swapIndex js jr).aPiv.filter (· ≠ ys) = L.aPiv := by
  have hr' : (L.swapIndex js jr).z2a jr = some ys := by simpa [Labels.swapIndex]
  have hs' : (L.swapIndex js jr).w2a js = none := by simpa [Labels.swapIndex]
  rw [← aPiv_swapIndex_none (hL.swapIndex js jr) hr' hs', swapIndex_swapIndex]

end Lists

/-! ### Entries and sums -/

section Entries

variable [Field K] {M : Matrix (Fin n) (Fin (n + 1)) K} {q : Fin n → K} {L : Labels n}
  {e : Var n ≃ Var n} {js : Fin n} {jr : Fin (n + 1)}

/-- An entry after an exchange, from the entries before it. -/
theorem entry_exchange (D : Dictionary M q e) (hne : D.coeff js jr ≠ 0) {v v' : Var n}
    (hv : InW (exchanged e js jr) v) (hv' : ¬InW (exchanged e js jr) v') :
    (D.exchange js jr hne).entry v v' =
      if v = e (.inr jr) then
        if v' = e (.inl js) then (D.coeff js jr)⁻¹
        else -(D.entry (e (.inl js)) v' / D.coeff js jr)
      else if v' = e (.inl js) then D.entry v (e (.inr jr)) / D.coeff js jr
      else D.entry v v' - D.entry v (e (.inr jr)) * D.entry (e (.inl js)) v' / D.coeff js jr := by
  obtain ⟨i, rfl⟩ := hv
  obtain ⟨j, rfl⟩ := not_inW_iff.1 hv'
  rw [D.entry_exchange hne, exchangeCoeff, exchanged_inl, exchanged_inr]
  by_cases hi : i = js <;> by_cases hj : j = jr <;>
    simp [hi, hj, D.entry_basic, e.injective.eq_iff]

/-- The inverse of `Maa` has the entries of the dictionary. -/
def HoldsInverse (L : Labels n) (D : Dictionary M q e) (Minv : ℕ → ℕ → K) : Prop :=
  ∀ t t' g a, L.gPiv[t]? = some g → L.aPiv[t']? = some a → Minv t t' = D.entry (.inr g) (.inl a)

variable {x : ℕ → K}

/-- A row of `M` times a column at the `g` in `w`. -/
theorem dot_row (hL : L.Places e) (D : Dictionary M q e) (a : Fin n) {v : Var n}
    (hv : ¬InW e v) (hx : ∀ t g, L.gPiv[t]? = some g → x t = D.entry (.inr g) v) :
    dot L.gPiv.length (fun t ↦ L.gPiv[t]?.elim 0 (M a)) x + v.getRight?.elim 0 (M a) =
      D.entry (.inl a) v := by
  obtain ⟨j, rfl⟩ := not_inW_iff.1 hv
  rw [D.entry_nonbasic, column_inl hL, hL.z2g, dot]
  refine congrArg (· + _) (sum_range_length fun t g hg ↦ ?_)
  rw [hg, hx t g hg, D.entry_nonbasic, Option.elim_some]

/-- A row of the inverse times a column of `M` at the `a` in `z`. -/
theorem dot_col (hL : L.Places e) (D : Dictionary M q e) {g g' : Fin (n + 1)} (hg : InW e (.inr g))
    (hg' : ¬InW e (.inr g')) (hx : ∀ s a, L.aPiv[s]? = some a → x s = D.entry (.inr g) (.inl a)) :
    dot L.gPiv.length x (fun s ↦ L.aPiv[s]?.elim 0 fun a ↦ M a g') =
      -D.entry (.inr g) (.inr g') := by
  obtain ⟨i, hi⟩ := hg
  obtain ⟨j, hj⟩ := not_inW_iff.1 hg'
  rw [← hi, ← hj, D.entry_basic, coeff_of_inr hL D hi hj, neg_neg, dot, ← hL.length_aPiv]
  refine sum_range_length fun s a ha ↦ ?_
  rw [hx s a ha, ha, Option.elim_some]

/-! ### The four updates -/

section Blocks

variable {nTotal t c : ℕ} {P : ℕ → ℕ → K} {u v : ℕ → K}

theorem dot_one (u v : ℕ → K) : dot 1 u v = u 0 * v 0 := by
  rw [dot, Finset.sum_range_one]

/-- The column that is replaced. With one row and one column, nothing is left of the old inverse. -/
theorem invRowReplaced_snd (ht : t < nTotal) (hp : dot nTotal v u ≠ 0) :
    (invRowReplaced (nTotal - 1) nTotal P u v).2 t = u t / dot nTotal v u := by
  rw [invRowReplaced]
  split
  · obtain rfl : nTotal = 1 := by omega
    obtain rfl : t = 0 := by omega
    rw [dot_one] at hp ⊢
    exact (div_mul_cancel_right₀ (right_ne_zero_of_mul hp) (v 0)).symm ▸ (one_div (v 0))
  · exact mul_one_div _ _

theorem invRowReplaced_fst (hn : 1 < nTotal) (hx : (P · c) = x) :
    (invRowReplaced (nTotal - 1) nTotal P u v).1 t c =
      x t - u t * dot nTotal v x / dot nTotal v u := by
  rw [invRowReplaced, if_neg (Nat.sub_pos_of_lt hn).ne', ← hx]
  ring

theorem invColReplaced_snd (hc : c < nTotal) (hp : dot nTotal u v ≠ 0) :
    (invColReplaced (nTotal - 1) nTotal P u v).2 c = u c / dot nTotal u v := by
  rw [invColReplaced]
  split
  · obtain rfl : nTotal = 1 := by omega
    obtain rfl : c = 0 := by omega
    rw [dot_one] at hp ⊢
    exact (div_mul_cancel_left₀ (left_ne_zero_of_mul hp) (v 0)).symm ▸ (one_div (v 0))
  · exact one_div_mul_eq_div _ _

theorem invColReplaced_fst (hn : 1 < nTotal) (hx : P t = x) :
    (invColReplaced (nTotal - 1) nTotal P u v).1 t c =
      x c - dot nTotal x v * u c / dot nTotal u v := by
  rw [invColReplaced, if_neg (Nat.sub_pos_of_lt hn).ne', ← hx]
  ring

section Enlarge

variable {w m22 : K}

theorem invEnlarge_of_ne_zero (hn : nTotal ≠ 0) (hw : -dot nTotal v (mulVec nTotal P u) + m22 = w) :
    invEnlarge nTotal u v m22 P =
      ⟨fun i j ↦ -(mulVec nTotal P u i * -(1 / w * dot nTotal v (P · j))) + P i j,
        fun i ↦ -(mulVec nTotal P u i * (1 / w)), fun j ↦ -(1 / w * dot nTotal v (P · j)),
          1 / w⟩ := by
  subst hw
  exact if_neg hn

theorem invEnlarge_w (hw : -dot nTotal v (mulVec nTotal P u) + m22 = w) :
    (invEnlarge nTotal u v m22 P).w = w⁻¹ := by
  rcases eq_or_ne nTotal 0 with rfl | hn
  · rw [dot, Finset.sum_range_zero, neg_zero, zero_add] at hw
    rw [invEnlarge, if_pos rfl, hw, one_div]
  · rw [invEnlarge_of_ne_zero hn hw, one_div]

theorem invEnlarge_y (hw : -dot nTotal v (mulVec nTotal P u) + m22 = w) (ht : t < nTotal) :
    (invEnlarge nTotal u v m22 P).y t = -mulVec nTotal P u t / w := by
  rw [invEnlarge_of_ne_zero (Nat.ne_zero_of_lt ht) hw]
  ring

theorem invEnlarge_z (hw : -dot nTotal v (mulVec nTotal P u) + m22 = w) (hc : c < nTotal) :
    (invEnlarge nTotal u v m22 P).z c = -(dot nTotal v (P · c) / w) := by
  rw [invEnlarge_of_ne_zero (Nat.ne_zero_of_lt hc) hw]
  ring

theorem invEnlarge_X (hw : -dot nTotal v (mulVec nTotal P u) + m22 = w) (ht : t < nTotal) :
    (invEnlarge nTotal u v m22 P).X t c =
      P t c - -mulVec nTotal P u t * dot nTotal v (P · c) / w := by
  rw [invEnlarge_of_ne_zero (Nat.ne_zero_of_lt ht) hw]
  ring

end Enlarge

theorem invShrink_eq {w : K} (hw : w ≠ 0) : invShrink P u v w t c = P t c - u t * v c / w := by
  rw [invShrink]
  field_simp

theorem one_lt_length {α : Type*} {l : List α} {i j : ℕ} {x y : α} (hi : l[i]? = some x)
    (hj : l[j]? = some y) (hne : x ≠ y) : 1 < l.length := by
  have hi' := (List.getElem?_eq_some_iff.1 hi).1
  have hj' := (List.getElem?_eq_some_iff.1 hj).1
  have hij : i ≠ j := fun h ↦ hne (Option.some_inj.1 (hi.symm.trans (h ▸ hj)))
  omega

end Blocks

variable {A : ℕ → ℕ → K} {D : Dictionary M q e} (hne : D.coeff js jr ≠ 0)

theorem Labels.Places.inW_of_gPiv (hL : L.Places e) {t : ℕ} {g : Fin (n + 1)}
    (hg : L.gPiv[t]? = some g) : InW e (.inr g) :=
  hL.mem_gPiv.1 (List.mem_of_getElem? hg)

theorem Labels.Places.not_inW_of_aPiv (hL : L.Places e) {t : ℕ} {a : Fin n}
    (ha : L.aPiv[t]? = some a) : ¬InW e (.inl a) :=
  not_inW_iff.2 (hL.mem_aPiv.1 (List.mem_of_getElem? ha))

theorem holdsInverse_rowReplaced (hL : L.Places e) (h : HoldsInverse L D A) {ys yr : Fin n}
    (hs : e (.inl js) = .inl ys) (hr : e (.inr jr) = .inl yr) :
    HoldsInverse (L.swapIndex js jr) (D.exchange js jr hne)
      (rowReplaced M A (L.swapIndex js jr).gPiv (L.swapIndex js jr).aPiv ys) := by
  have hL' := hL.swapIndex js jr
  have hgPiv : (L.swapIndex js jr).gPiv = L.gPiv :=
    gPiv_swapIndex_self (by rw [hL.w2g, hL.z2g, hs, hr]; rfl)
  have hyr : L.z2a jr = some yr := by rw [hL.z2a, hr]; rfl
  have hys : L.w2a js = some ys := by rw [hL.w2a, hs]; rfl
  have haPiv := aPiv_swapIndex_some hL hyr hys
  have hlength := hL'.length_aPiv
  set piv2a := (L.swapIndex js jr).aPiv with hpiv2a
  -- the elements of the new list in the old one
  have hold {t' : ℕ} {a : Fin n} (ha : piv2a[t']? = some a) :
      L.aPiv[t']? = some (if a = ys then yr else a) := by
    rw [haPiv, List.getElem?_map, Option.map_eq_some_iff] at ha
    obtain ⟨z, hz, rfl⟩ := ha
    have hzs : z ≠ ys := fun hzs ↦ hL.not_inW_of_aPiv hz ⟨js, hs.trans (congrArg _ hzs.symm)⟩
    rw [hz]
    by_cases hzr : z = yr <;> simp [hzr, hzs]
  have hpos : piv2a[piv2a.idxOf ys]? = some ys :=
    List.getElem?_idxOf (hL'.mem_aPiv.2 ⟨jr, by rw [exchanged_inr, if_pos rfl, hs]⟩)
  have hq {t : ℕ} {g : Fin (n + 1)} (hg : L.gPiv[t]? = some g) :
      A t (piv2a.idxOf ys) = D.entry (.inr g) (.inl yr) := by
    have hpos' := hold hpos
    rw [if_pos rfl] at hpos'
    exact h t _ g yr hg hpos'
  -- the row that comes times the inverse
  have hrow {a : Fin n} (ha : ¬InW e (.inl a)) {x : ℕ → K}
      (hx : ∀ t g, L.gPiv[t]? = some g → x t = D.entry (.inr g) (.inl a)) :
      dot L.gPiv.length (fun t ↦ L.gPiv[t]?.elim 0 (M ys)) x = D.entry (.inl ys) (.inl a) := by
    have hdot := dot_row hL D ys ha hx
    rwa [Sum.getRight?_inl, Option.elim_none, add_zero] at hdot
  have hp : dot L.gPiv.length (fun t ↦ L.gPiv[t]?.elim 0 (M ys)) (A · (piv2a.idxOf ys)) =
      D.coeff js jr := by
    rw [hrow (not_inW_iff.2 ⟨jr, hr⟩) fun t g hg ↦ hq hg, ← hs, ← hr, D.entry_basic]
  intro t t' g a hg ha
  have hgne : (Sum.inr g : Var n) ≠ e (.inr jr) := by rw [hr]; exact Sum.inr_ne_inl
  rw [entry_exchange D hne (hL'.inW_of_gPiv hg) (hL'.not_inW_of_aPiv ha), if_neg hgne, hs, hr,
    LCP.rowReplaced]
  rw [hgPiv] at hg hlength ⊢
  by_cases hays : a = ys
  · rw [if_pos (hays ▸ ha), if_pos (congrArg _ hays),
      invRowReplaced_snd (List.getElem?_eq_some_iff.1 hg).1 (hp ▸ hne), hp, hq hg]
  · have ha' := hold ha
    rw [if_neg hays] at ha'
    have hx : (fun t ↦ (others piv2a ys)[countOthers piv2a ys t']?.elim 0 (A t)) = (A · t') := by
      rw [getElem?_others ha hays]
      rfl
    rw [if_neg (by rw [ha]; exact fun heq ↦ hays (Option.some_inj.1 heq)),
      if_neg (Sum.inl_injective.ne hays),
      invRowReplaced_fst (hlength ▸ one_lt_length ha hpos hays) hx, hp, hq hg,
      hrow (hL.not_inW_of_aPiv ha') fun t g hg ↦ h t t' g a hg ha', h t t' g a hg ha']

theorem holdsInverse_colReplaced (hL : L.Places e) (h : HoldsInverse L D A) {ys yr : Fin (n + 1)}
    (hs : e (.inl js) = .inr ys) (hr : e (.inr jr) = .inr yr) :
    HoldsInverse (L.swapIndex js jr) (D.exchange js jr hne)
      (colReplaced M A (L.swapIndex js jr).gPiv (L.swapIndex js jr).aPiv yr) := by
  have hL' := hL.swapIndex js jr
  have haPiv : (L.swapIndex js jr).aPiv = L.aPiv :=
    aPiv_swapIndex_self (by rw [hL.z2a, hL.w2a, hs, hr]; rfl)
  have hys : L.w2g js = some ys := by rw [hL.w2g, hs]; rfl
  have hyr : L.z2g jr = some yr := by rw [hL.z2g, hr]; rfl
  have hgPiv := gPiv_swapIndex_some hL hys hyr
  have hlength : (L.swapIndex js jr).gPiv.length = L.gPiv.length := by
    rw [hgPiv, List.length_map]
  set piv2g := (L.swapIndex js jr).gPiv with hpiv2g
  have hyr : ¬InW e (.inr yr) := not_inW_iff.2 ⟨jr, hr⟩
  -- the elements of the new list in the old one
  have hold {t : ℕ} {g : Fin (n + 1)} (hg : piv2g[t]? = some g) :
      L.gPiv[t]? = some (if g = yr then ys else g) := by
    rw [hgPiv, List.getElem?_map, Option.map_eq_some_iff] at hg
    obtain ⟨z, hz, rfl⟩ := hg
    have hzr : z ≠ yr := fun hzr ↦ hyr (hzr ▸ hL.inW_of_gPiv hz)
    rw [hz]
    by_cases hzs : z = ys <;> simp [hzs, hzr]
  have hpos : piv2g[piv2g.idxOf yr]? = some yr :=
    List.getElem?_idxOf (hL'.mem_gPiv.2 ⟨js, by rw [exchanged_inl, if_pos rfl, hr]⟩)
  have hq {t' : ℕ} {a : Fin n} (ha : L.aPiv[t']? = some a) :
      A (piv2g.idxOf yr) t' = D.entry (.inr ys) (.inl a) := by
    have hpos' := hold hpos
    rw [if_pos rfl] at hpos'
    exact h _ t' ys a hpos' ha
  -- the inverse times the column that comes
  have hp : dot L.gPiv.length (A (piv2g.idxOf yr)) (fun s ↦ L.aPiv[s]?.elim 0 fun a ↦ M a yr) =
      -D.coeff js jr := by
    rw [dot_col hL D ⟨js, hs⟩ hyr fun s a ha ↦ hq ha, ← hs, ← hr, D.entry_basic]
  intro t t' g a hg ha
  have hays : (Sum.inl a : Var n) ≠ e (.inl js) := by rw [hs]; exact Sum.inl_ne_inr
  rw [entry_exchange D hne (hL'.inW_of_gPiv hg) (hL'.not_inW_of_aPiv ha), if_neg hays, hs, hr,
    LCP.colReplaced]
  rw [haPiv] at ha ⊢
  rw [hlength]
  by_cases hgyr : g = yr
  · rw [if_pos (hgyr ▸ hg), if_pos (congrArg _ hgyr), invColReplaced_snd
      (hL.length_aPiv ▸ (List.getElem?_eq_some_iff.1 ha).1) (hp ▸ neg_ne_zero.2 hne), hp, hq ha,
      div_neg]
  · have hg' := hold hg
    rw [if_neg hgyr] at hg'
    have hx : (fun j ↦ (others piv2g yr)[countOthers piv2g yr t]?.elim 0 fun i ↦ A i j) = A t := by
      rw [getElem?_others hg hgyr]
      rfl
    rw [if_neg (by rw [hg]; exact fun heq ↦ hgyr (Option.some_inj.1 heq)),
      if_neg (Sum.inr_injective.ne hgyr), if_neg Sum.inl_ne_inr,
      invColReplaced_fst (hlength ▸ one_lt_length hg hpos hgyr) hx, hp, hq ha,
      dot_col hL D (hL.inW_of_gPiv hg') hyr fun s a ha ↦ h t s g a hg' ha, h t t' g a hg' ha,
      neg_mul, neg_div_neg_eq]

theorem holdsInverse_enlarge (hL : L.Places e) (h : HoldsInverse L D A) {ys : Fin n}
    {yr : Fin (n + 1)} (hs : e (.inl js) = .inl ys) (hr : e (.inr jr) = .inr yr) :
    HoldsInverse (L.swapIndex js jr) (D.exchange js jr hne)
      (enlarge M A (L.swapIndex js jr).gPiv (L.swapIndex js jr).aPiv ys yr) := by
  have hL' := hL.swapIndex js jr
  have hgPiv : (L.swapIndex js jr).gPiv.filter (· ≠ yr) = L.gPiv :=
    gPiv_filter_swapIndex hL (by rw [hL.w2g, hs]; rfl) (by rw [hL.z2g, hr]; rfl)
  have haPiv : (L.swapIndex js jr).aPiv.filter (· ≠ ys) = L.aPiv :=
    aPiv_filter_swapIndex hL (by rw [hL.z2a, hr]; rfl) (by rw [hL.w2a, hs]; rfl)
  have hyr : ¬InW e (.inr yr) := not_inW_iff.2 ⟨jr, hr⟩
  have hmem : yr ∈ (L.swapIndex js jr).gPiv :=
    hL'.mem_gPiv.2 ⟨js, by rw [exchanged_inl, if_pos rfl, hr]⟩
  have hlength : L.gPiv.length = (L.swapIndex js jr).gPiv.length - 1 := by
    rw [← hgPiv, length_filter_ne hL'.nodup_gPiv hmem]
  set piv2g := (L.swapIndex js jr).gPiv
  set piv2a := (L.swapIndex js jr).aPiv
  -- the elements of the new lists that are in the old ones
  have hgold {t : ℕ} {g : Fin (n + 1)} (hg : piv2g[t]? = some g) (hgyr : g ≠ yr) :
      L.gPiv[countOthers piv2g yr t]? = some g :=
    hgPiv ▸ getElem?_filter_ne hg hgyr
  have haold {t' : ℕ} {a : Fin n} (ha : piv2a[t']? = some a) (hays : a ≠ ys) :
      L.aPiv[countOthers piv2a ys t']? = some a :=
    haPiv ▸ getElem?_filter_ne ha hays
  -- the inverse times the column, and the row times the inverse
  have hPm {t : ℕ} {g : Fin (n + 1)} (hg : L.gPiv[t]? = some g) :
      mulVec L.gPiv.length A (fun s ↦ L.aPiv[s]?.elim 0 fun a ↦ M a yr) t =
        -D.entry (.inr g) (.inr yr) :=
    dot_col hL D (hL.inW_of_gPiv hg) hyr fun s a ha ↦ h t s g a hg ha
  have hmP {t' : ℕ} {a : Fin n} (ha : L.aPiv[t']? = some a) :
      dot L.gPiv.length (fun t ↦ L.gPiv[t]?.elim 0 (M ys)) (A · t') =
        D.entry (.inl ys) (.inl a) := by
    have hdot := dot_row hL D ys (hL.not_inW_of_aPiv ha) fun t g hg ↦ h t t' g a hg ha
    rwa [Sum.getRight?_inl, Option.elim_none, add_zero] at hdot
  have hw : -dot L.gPiv.length (fun t ↦ L.gPiv[t]?.elim 0 (M ys))
      (mulVec L.gPiv.length A fun s ↦ L.aPiv[s]?.elim 0 fun a ↦ M a yr) + M ys yr =
        D.coeff js jr := by
    have hdot := dot_row hL D ys hyr (x := fun t ↦ -mulVec L.gPiv.length A
      (fun s ↦ L.aPiv[s]?.elim 0 fun a ↦ M a yr) t) fun t g hg ↦ by rw [hPm hg, neg_neg]
    rw [← D.entry_basic, hs, hr, ← hdot, Sum.getRight?_inr, Option.elim_some, dot, dot,
      ← Finset.sum_neg_distrib]
    simp only [mul_neg]
  intro t t' g a hg ha
  rw [entry_exchange D hne (hL'.inW_of_gPiv hg) (hL'.not_inW_of_aPiv ha), hs, hr, LCP.enlarge,
    hgPiv, haPiv, ← hlength]
  by_cases hgyr : g = yr <;> by_cases hays : a = ys
  · rw [if_pos (hgyr ▸ hg), if_pos (hays ▸ ha), if_pos (congrArg _ hgyr), if_pos (congrArg _ hays),
      invEnlarge_w hw]
  · have ha' := haold ha hays
    rw [if_pos (hgyr ▸ hg), if_neg (by rw [ha]; exact fun heq ↦ hays (Option.some_inj.1 heq)),
      if_pos (congrArg _ hgyr), if_neg (Sum.inl_injective.ne hays),
      invEnlarge_z hw (hL.length_aPiv ▸ (List.getElem?_eq_some_iff.1 ha').1), hmP ha']
  · have hg' := hgold hg hgyr
    rw [if_neg (by rw [hg]; exact fun heq ↦ hgyr (Option.some_inj.1 heq)), if_pos (hays ▸ ha),
      if_neg (Sum.inr_injective.ne hgyr), if_pos (congrArg _ hays),
      invEnlarge_y hw (List.getElem?_eq_some_iff.1 hg').1, hPm hg', neg_neg]
  · have hg' := hgold hg hgyr
    have ha' := haold ha hays
    rw [if_neg (by rw [hg]; exact fun heq ↦ hgyr (Option.some_inj.1 heq)),
      if_neg (by rw [ha]; exact fun heq ↦ hays (Option.some_inj.1 heq)),
      if_neg (Sum.inr_injective.ne hgyr), if_neg (Sum.inl_injective.ne hays),
      invEnlarge_X hw (List.getElem?_eq_some_iff.1 hg').1, hPm hg', hmP ha', neg_neg,
      h _ _ g a hg' ha']

theorem holdsInverse_shrink (hL : L.Places e) (h : HoldsInverse L D A) {ys : Fin (n + 1)}
    {yr : Fin n} (hs : e (.inl js) = .inr ys) (hr : e (.inr jr) = .inl yr) :
    HoldsInverse (L.swapIndex js jr) (D.exchange js jr hne) (shrink A L.gPiv L.aPiv ys yr) := by
  have hL' := hL.swapIndex js jr
  have hgPiv : (L.swapIndex js jr).gPiv = L.gPiv.filter (· ≠ ys) :=
    gPiv_swapIndex_none hL (by rw [hL.w2g, hs]; rfl) (by rw [hL.z2g, hr]; rfl)
  have haPiv : (L.swapIndex js jr).aPiv = L.aPiv.filter (· ≠ yr) :=
    aPiv_swapIndex_none hL (by rw [hL.z2a, hr]; rfl) (by rw [hL.w2a, hs]; rfl)
  have hpos : L.gPiv[L.gPiv.idxOf ys]? = some ys :=
    List.getElem?_idxOf (hL.mem_gPiv.2 ⟨js, hs⟩)
  have hpos' : L.aPiv[L.aPiv.idxOf yr]? = some yr :=
    List.getElem?_idxOf (hL.mem_aPiv.2 ⟨jr, hr⟩)
  have hw : A (L.gPiv.idxOf ys) (L.aPiv.idxOf yr) = D.coeff js jr := by
    rw [h _ _ ys yr hpos hpos', ← hs, ← hr, D.entry_basic]
  intro t t' g a hg ha
  have hgyr : (Sum.inr g : Var n) ≠ .inl yr := Sum.inr_ne_inl
  have hays : (Sum.inl a : Var n) ≠ .inr ys := Sum.inl_ne_inr
  rw [entry_exchange D hne (hL'.inW_of_gPiv hg) (hL'.not_inW_of_aPiv ha), hs, hr, if_neg hgyr,
    if_neg hays, LCP.shrink, invShrink_eq (hw ▸ hne), hw]
  obtain ⟨i, hi, hg'⟩ := exists_others (hgPiv ▸ hg)
  obtain ⟨j, hj, ha'⟩ := exists_others (haPiv ▸ ha)
  rw [hi, hj, Option.elim_some, Option.elim_some, Option.elim_some, Option.elim_some,
    h i j g a hg' ha', h i _ g yr hg' hpos', h _ j ys a hpos ha']

/-- **The inverse after a pivot** has the entries of the dictionary after the exchange. -/
theorem holdsInverse_newMinv (hL : L.Places e) (h : HoldsInverse L D A) :
    HoldsInverse (L.swapIndex js jr) (D.exchange js jr hne)
      (newMinv M A L (L.swapIndex js jr) (L.w2a js) (L.w2g js) (L.z2a jr) (L.z2g jr)) := by
  rw [hL.w2a, hL.w2g, hL.z2a, hL.z2g]
  rcases hs : e (.inl js) with ys | ys <;> rcases hr : e (.inr jr) with yr | yr
  · exact holdsInverse_rowReplaced hne hL h hs hr
  · exact holdsInverse_enlarge hne hL h hs hr
  · exact holdsInverse_shrink hne hL h hs hr
  · exact holdsInverse_colReplaced hne hL h hs hr

/-! ### The column and the right-hand side -/

variable {Minv : ℕ → ℕ → K}

theorem columnPiv_eq (hL : L.Places e) (h : HoldsInverse L D Minv) (jr : Fin (n + 1)) {t : ℕ}
    {g : Fin (n + 1)} (hg : L.gPiv[t]? = some g) :
    columnPiv M Minv L jr t = D.entry (.inr g) (e (.inr jr)) := by
  rw [columnPiv, hL.z2a, hL.z2g]
  rcases hr : e (.inr jr) with a | g'
  · obtain ⟨t', ht', ha⟩ := hL.exists_aPiv hr
    have hlt := (List.getElem?_eq_some_iff.1 ha).1
    refine (if_pos rfl).trans ?_
    rw [mulVec, Finset.sum_eq_single t']
    · rw [if_pos ht', mul_one, h t t' g a hg ha]
    · exact fun s _ hs ↦ by
        rw [if_neg fun heq ↦ hs (Option.some_inj.1 (heq.symm.trans ht')), mul_zero]
    · exact fun hnot ↦ absurd (Finset.mem_range.2 (hL.length_aPiv ▸ hlt)) hnot
  · refine (if_neg Bool.false_ne_true).trans ?_
    rw [neg_eq_iff_eq_neg]
    exact dot_col hL D (hL.inW_of_gPiv hg) (not_inW_iff.2 ⟨jr, hr⟩) fun s a ha ↦ h t s g a hg ha

/-- The column is that of the dictionary. -/
theorem columnOf_eq (hL : L.Places e) (h : HoldsInverse L D Minv) (jr : Fin (n + 1)) :
    columnOf M Minv L jr = fun i ↦ D.coeff i jr := by
  funext i
  rw [columnOf, ← D.entry_basic]
  rcases hi : e (.inl i) with a | g
  · have hrow := dot_row hL D a (not_inW_iff.2 ⟨jr, rfl⟩) fun t g hg ↦ columnPiv_eq hL h jr hg
    rw [countPiv_of_none (by rw [hL.w2g, hi]; rfl), hL.w2a, hi, ← hrow, hL.z2a, hL.z2g]
    refine (add_comm _ _).trans (congrArg (dot L.gPiv.length _ _ + ·) ?_)
    rcases e (.inr jr) with a' | g' <;> rfl
  · obtain ⟨t, ht, hg⟩ := hL.exists_gPiv hi
    rw [ht]
    exact columnPiv_eq hL h jr hg

/-- The right-hand side is that of the dictionary. -/
theorem constOf_eq (hL : L.Places e) (h : HoldsInverse L D Minv) :
    constOf M q Minv L = D.const := by
  have hx {t : ℕ} {g : Fin (n + 1)} (hg : L.gPiv[t]? = some g) :
      -mulVec L.gPiv.length Minv (subVector q L.aPiv) t = D.basicSolution (.inr g) := by
    obtain ⟨i, hi⟩ := hL.inW_of_gPiv hg
    rw [basicSolution_of_inW D i hi, const_of_inr hL D hi, mulVec, ← hL.length_aPiv]
    refine congrArg Neg.neg (sum_range_length fun s a ha ↦ ?_)
    rw [subVector, ha, Option.elim_some, h t s g a hg ha]
  funext i
  rw [constOf, ← basicSolution_of_inW D i rfl]
  rcases hi : e (.inl i) with a | g
  · rw [countPiv_of_none (by rw [hL.w2g, hi]; rfl), hL.w2a, hi, basicSolution_inl hL D]
    refine (add_comm _ _).trans (congrArg (· + q a) (sum_range_length fun t g hg ↦ ?_))
    have hcoeff : L.gPiv[t]?.elim 0 (M a) = M a g := by rw [hg, Option.elim_some]
    exact congrArg₂ (· * ·) hcoeff (hx hg)
  · obtain ⟨t, ht, hg⟩ := hL.exists_gPiv hi
    rw [ht]
    exact hx hg

end Entries

end OpenHRP.LCP
