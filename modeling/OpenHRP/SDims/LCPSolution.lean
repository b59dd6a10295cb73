import OpenHRP.Model.Link
import OpenHRP.SDims.LCPLabels

/-!
# Reading a solution from the labels

Both solvers write the right-hand side of the last pivot to `a` and `g`, where the labels say which
variable is where. These are the variables of the basic solution (`aValues_eq`, `gValues_eq`), so
that they satisfy the equations, and where one of `a i` and `g i` is in `w` for every `i`, the other
one is zero (`basicSolution_complementary`).
-/

namespace OpenHRP.LCP

variable {n : ℕ} {K : Type*}

section Values

variable [Zero K]

/-- The loop that writes the elements of `q` to those of `a` that are in `w`. -/
def aValues (L : Labels n) (q : Fin n → K) : Fin n → K :=
  (List.finRange n).foldl (fun a j ↦ (L.w2a j).elim a fun i ↦ Function.update a i (q j)) 0

/-- The loop that writes the elements of `q` to those of `g` that are in `w`; the last one is `g0`.
-/
def gValues (L : Labels n) (q : Fin n → K) : Fin (n + 1) → K :=
  (List.finRange n).foldl (fun g j ↦
    if (L.w2a j).isSome then g else (L.w2g j).elim g fun i ↦ Function.update g i (q j)) 0

end Values

/-- `M = [N c]`. -/
def extended [One K] (N : Matrix (Fin n) (Fin n) K) : Matrix (Fin n) (Fin (n + 1)) K := fun i ↦
  Fin.snoc (N i) 1

/-- `CheckPivotResult`: the length of the error. -/
def checkPivotResult [Field K] [CMath K] (N : Matrix (Fin n) (Fin n) K) (r q : Fin n → K)
    (L : Labels n) : K :=
  let a := aValues L q
  let g := gValues L q
  let error := fun i ↦ ∑ j, N i j * g j.castSucc - a i + r i + g (Fin.last n)
  CMath.sqrt (∑ i, error i * error i)

section Values

variable [Field K] {e : Var n ≃ Var n} {L : Labels n} {M : Matrix (Fin n) (Fin (n + 1)) K}
  {q : Fin n → K}

/-- What a loop writes that puts the elements of `q` where an array says. -/
theorem foldl_update_array {α : Type*} [DecidableEq α] {array : Fin n → Option α} (q : Fin n → K)
    (hinj : ∀ j j' x, array j = some x → array j' = some x → j = j') (x : α) :
    let v := (List.finRange n).foldl (fun v j ↦
      (array j).elim v fun i ↦ Function.update v i (q j)) (0 : α → K)
    (∀ j, array j = some x → v x = q j) ∧ ((∀ j, array j ≠ some x) → v x = 0) := by
  have hfold (l : List (Fin n)) :
      let v := l.foldl (fun v j ↦ (array j).elim v fun i ↦ Function.update v i (q j)) (0 : α → K)
      (∀ j ∈ l, array j = some x → v x = q j) ∧ ((∀ j ∈ l, array j ≠ some x) → v x = 0) := by
    induction l using List.reverseRecOn with
    | nil => exact ⟨nofun, fun _ ↦ rfl⟩
    | append_singleton l j ih =>
      obtain ⟨hmem, hnone⟩ := ih
      rw [List.foldl_append, List.foldl_cons, List.foldl_nil]
      by_cases hj : array j = some x
      · rw [hj, Option.elim_some]
        refine ⟨fun j' _ hj' ↦ ?_, fun h ↦ absurd hj (h j (by simp))⟩
        rw [hinj j' j x hj' hj]
        exact Function.update_self ..
      · have hkeep (v : α → K) :
            (array j).elim v (fun i ↦ Function.update v i (q j)) x = v x := by
          rcases hy : array j with _ | y
          · rfl
          · exact Function.update_of_ne (fun h ↦ hj (hy.trans (congrArg some h.symm))) ..
        refine ⟨fun j' hmem' hj' ↦ ?_, fun h ↦ ?_⟩
        · rw [hkeep]
          rcases List.mem_append.1 hmem' with hl | hl
          · exact hmem j' hl hj'
          · exact absurd (List.mem_singleton.1 hl ▸ hj') hj
        · rw [hkeep]
          exact hnone fun j' hl ↦ h j' (List.mem_append_left _ hl)
  obtain ⟨hmem, hnone⟩ := hfold (List.finRange n)
  exact ⟨fun j ↦ hmem j (List.mem_finRange j), fun h ↦ hnone fun j _ ↦ h j⟩

theorem basicSolution_of_inW (D : Dictionary M q e) {v : Var n} (i : Fin n) (hi : e (.inl i) = v) :
    D.basicSolution v = D.const i := by
  rw [← hi]
  exact congrFun D.basicSolution_comp (.inl i)

theorem basicSolution_of_not_inW (D : Dictionary M q e) {v : Var n} (h : ¬ InW e v) :
    D.basicSolution v = 0 := by
  obtain ⟨j, hj⟩ := not_inW_iff.1 h
  rw [← hj]
  exact congrFun D.basicSolution_comp (.inr j)

/-- The loop for `a` writes the basic solution. -/
theorem aValues_eq (hL : L.Places e) (D : Dictionary M q e) (a : Fin n) :
    aValues L D.const a = D.basicSolution (.inl a) := by
  have harray (j a : Fin n) : L.w2a j = some a ↔ e (.inl j) = .inl a := by
    rw [hL.w2a, Sum.getLeft?_eq_some_iff]
  obtain ⟨hin, hout⟩ := foldl_update_array D.const (fun j j' x hj hj' ↦
    Sum.inl_injective (e.injective (((harray j x).1 hj).trans ((harray j' x).1 hj').symm))) a
  by_cases h : InW e (.inl a)
  · obtain ⟨j, hj⟩ := h
    rw [basicSolution_of_inW D j hj]
    exact hin j ((harray j a).2 hj)
  · rw [basicSolution_of_not_inW D h]
    exact hout fun j hj ↦ h ⟨j, (harray j a).1 hj⟩

/-- The loop for `g` writes the basic solution. -/
theorem gValues_eq (hL : L.Places e) (D : Dictionary M q e) (g : Fin (n + 1)) :
    gValues L D.const g = D.basicSolution (.inr g) := by
  have harray (j : Fin n) (g : Fin (n + 1)) : L.w2g j = some g ↔ e (.inl j) = .inr g := by
    rw [hL.w2g, Sum.getRight?_eq_some_iff]
  have hloop : gValues L D.const = (List.finRange n).foldl (fun v j ↦
      (L.w2g j).elim v fun i ↦ Function.update v i (D.const j)) 0 := by
    rw [gValues]
    congr 1
    funext v j
    rw [hL.w2a, hL.w2g]
    rcases e (.inl j) with a | g <;> rfl
  obtain ⟨hin, hout⟩ := foldl_update_array D.const (fun j j' x hj hj' ↦
    Sum.inl_injective (e.injective (((harray j x).1 hj).trans ((harray j' x).1 hj').symm))) g
  rw [hloop]
  by_cases h : InW e (.inr g)
  · obtain ⟨j, hj⟩ := h
    rw [basicSolution_of_inW D j hj]
    exact hin j ((harray j g).2 hj)
  · rw [basicSolution_of_not_inW D h]
    exact hout fun j hj ↦ h ⟨j, (harray j g).1 hj⟩

/-- The basic solution of a complementary choice solves the equations of the problem, and one of
each pair of variables is zero. -/
theorem basicSolution_complementary {N : Matrix (Fin n) (Fin n) K} (h : Complementary e)
    (D : Dictionary (extended N) q e) :
    (∀ i, ∑ j, N i j * D.basicSolution (.inr j.castSucc) + q i = D.basicSolution (.inl i)) ∧
      ∀ i : Fin n, D.basicSolution (.inr i.castSucc) = 0 ∨ D.basicSolution (.inl i) = 0 := by
  constructor
  · intro i
    rw [D.satisfies_basicSolution i, Fin.sum_univ_castSucc,
      basicSolution_of_not_inW D h.artificial, mul_zero, add_zero]
    simp only [extended, Fin.snoc_castSucc]
  · intro i
    by_cases hi : InW e (.inl i)
    · exact .inl (basicSolution_of_not_inW D ((h.one i).1 hi))
    · exact .inr (basicSolution_of_not_inW D hi)

/-- All variables of the basic solution are above a bound when the right-hand side is. -/
theorem le_basicSolution [LinearOrder K] {b : K} (hb : b ≤ 0) (D : Dictionary M q e)
    (hconst : ∀ i, b ≤ D.const i) (v : Var n) : b ≤ D.basicSolution v := by
  by_cases hv : InW e v
  · obtain ⟨i, hi⟩ := hv
    rw [basicSolution_of_inW D i hi]
    exact hconst i
  · rwa [basicSolution_of_not_inW D hv]

end Values

end OpenHRP.LCP
