import Mathlib.Data.List.Chain
import Mathlib.Data.List.Sublists

/-!
# Shortcuts

`ShortcutOptimizer::optimize` drops a configuration of a path when its neighbours are reachable from
one another, and looks at the next one when they are not. The index and the end of the path move
towards each other, by one in each turn, and the ends are never dropped.
-/

namespace OpenHRP.PathEngine

variable {C : Type*}

namespace ShortcutOptimizer

/-- The loop of `optimize`, with the number of its turns as fuel. There is no result either when it
reads past the end of the path. -/
def shorten (isReachable : C → C → Bool) : ℕ → ℕ → List C → Option (List C)
  | 0, _, _ => none
  | fuel + 1, index, optimized =>
    if index ≠ optimized.length - 1 then
      match optimized[index - 1]?, optimized[index + 1]? with
      | some a, some b =>
        if isReachable a b then shorten isReachable fuel index (optimized.eraseIdx index)
        else shorten isReachable fuel (index + 1) optimized
      | _, _ => none
    else some optimized

/-- `ShortcutOptimizer::optimize`. -/
def optimize (isReachable : C → C → Bool) (fuel : ℕ) (path : List C) : Option (List C) :=
  if path.length < 3 then some path else shorten isReachable fuel 1 path

/-- What an optimization keeps of a path. -/
structure Shortens (R : C → C → Prop) (path optimized : List C) : Prop where
  sublist : optimized.Sublist path
  head : optimized.head? = path.head?
  getLast : optimized.getLast? = path.getLast?
  chain : path.IsChain R → optimized.IsChain R

variable {R : C → C → Prop} {isReachable : C → C → Bool} {path l₁ l₂ l₃ : List C} {index : ℕ}

theorem Shortens.refl (path : List C) : Shortens R path path :=
  ⟨List.Sublist.refl _, rfl, rfl, id⟩

theorem Shortens.trans (h : Shortens R l₁ l₂) (h' : Shortens R l₂ l₃) : Shortens R l₁ l₃ :=
  ⟨h'.sublist.trans h.sublist, h'.head.trans h.head, h'.getLast.trans h.getLast, h'.chain ∘ h.chain⟩

/-- A path around one of its inner configurations. -/
theorem exists_eq_around (hpos : 0 < index) (hlt : index + 1 < path.length) :
    ∃ front a q b back, path = front ++ a :: q :: b :: back ∧ index = front.length + 1 := by
  obtain ⟨k, rfl⟩ : ∃ k, index = k + 1 := ⟨index - 1, by omega⟩
  refine ⟨path.take k, path[k], path[k + 1], path[k + 1 + 1], path.drop (k + 1 + 1 + 1), ?_, ?_⟩
  · rw [List.getElem_cons_drop, List.getElem_cons_drop, List.getElem_cons_drop,
      List.take_append_drop]
  · rw [List.length_take_of_le (by omega)]

/-- Dropping a configuration whose neighbours are related. -/
theorem shortens_around {front back : List C} {a q b : C} (hab : R a b) :
    Shortens R (front ++ a :: q :: b :: back) (front ++ a :: b :: back) where
  sublist := ((List.sublist_cons_self q (b :: back)).cons_cons a).append_left front
  head := by cases front <;> rfl
  getLast := by simp [List.getLast?_append]
  chain h := by
    rw [List.isChain_append, List.isChain_cons_cons, List.isChain_cons_cons] at h
    obtain ⟨hfront, ⟨-, -, hback⟩, hjoin⟩ := h
    exact List.isChain_append.2 ⟨hfront, List.isChain_cons_cons.2 ⟨hab, hback⟩, hjoin⟩

/-- One turn of the loop, at an inner configuration. -/
theorem shorten_around (isReachable : C → C → Bool) (fuel : ℕ) (front : List C) (a q b : C)
    (back : List C) :
    shorten isReachable (fuel + 1) (front.length + 1) (front ++ a :: q :: b :: back) =
      if isReachable a b then
        shorten isReachable fuel (front.length + 1) (front ++ a :: b :: back)
      else shorten isReachable fuel (front.length + 1 + 1) (front ++ a :: q :: b :: back) := by
  have hbefore : (front ++ a :: q :: b :: back)[front.length]? = some a := by simp
  have hafter : (front ++ a :: q :: b :: back)[front.length + 1 + 1]? = some b := by
    rw [List.getElem?_append_right (by omega),
      show front.length + 1 + 1 - front.length = 2 by omega]
    rfl
  have herase : (front ++ a :: q :: b :: back).eraseIdx (front.length + 1) =
      front ++ a :: b :: back := by
    rw [List.eraseIdx_append_of_length_le (Nat.le_succ _),
      show front.length + 1 - front.length = 1 by omega]
    rfl
  have hgoes : front.length + 1 ≠ (front ++ a :: q :: b :: back).length - 1 := by
    simp only [List.length_append, List.length_cons]
    omega
  rw [shorten, if_pos hgoes, Nat.add_sub_cancel, hbefore, hafter, herase]

/-- The loop ends, with what it keeps of the path. -/
theorem shorten_spec (isReachable : C → C → Bool) (path : List C) {index : ℕ} (hpos : 0 < index)
    (hlt : index < path.length) :
    ∃ optimized, (∀ fuel, path.length ≤ fuel + index → 0 < fuel →
        shorten isReachable fuel index path = some optimized) ∧
      Shortens (fun a b ↦ isReachable a b = true) path optimized := by
  induction hn : path.length - index generalizing index path with
  | zero => omega
  | succ n ih =>
    rcases Nat.lt_or_ge (index + 1) path.length with hinner | hend
    · obtain ⟨front, a, q, b, back, rfl, rfl⟩ := exists_eq_around hpos hinner
      simp only [List.length_append, List.length_cons] at hn hinner ⊢
      cases hreach : isReachable a b with
      | true =>
        obtain ⟨optimized, hrun, hkeep⟩ := ih (front ++ a :: b :: back) hpos
          (by simp only [List.length_append, List.length_cons]; omega)
          (by simp only [List.length_append, List.length_cons]; omega)
        have hdrop : Shortens (fun a b ↦ isReachable a b = true)
            (front ++ a :: q :: b :: back) (front ++ a :: b :: back) := shortens_around hreach
        refine ⟨optimized, fun fuel hfuel hpos ↦ ?_, hdrop.trans hkeep⟩
        simp only [List.length_append, List.length_cons] at hrun
        obtain ⟨fuel, rfl⟩ : ∃ m, fuel = m + 1 := ⟨fuel - 1, by omega⟩
        rw [shorten_around, if_pos hreach]
        exact hrun fuel (by omega) (by omega)
      | false =>
        obtain ⟨optimized, hrun, hkeep⟩ := ih (front ++ a :: q :: b :: back)
          (Nat.succ_pos (front.length + 1))
          (by simp only [List.length_append, List.length_cons]; omega)
          (by simp only [List.length_append, List.length_cons]; omega)
        refine ⟨optimized, fun fuel hfuel hpos ↦ ?_, hkeep⟩
        simp only [List.length_append, List.length_cons] at hrun
        obtain ⟨fuel, rfl⟩ : ∃ m, fuel = m + 1 := ⟨fuel - 1, by omega⟩
        rw [shorten_around, if_neg (by rw [hreach]; decide)]
        exact hrun fuel (by omega) (by omega)
    · refine ⟨path, fun fuel _ hfuel ↦ ?_, .refl path⟩
      obtain ⟨fuel, rfl⟩ : ∃ m, fuel = m + 1 := ⟨fuel - 1, by omega⟩
      rw [shorten, if_neg (by omega)]

/-- **Shortcuts keep a path valid.** For every path and every reachability, the loop ends within as
many turns as the path has configurations, and never reads past the end. What is left is a
subsequence of the path with the same ends, and if every step of the path was possible, so is every
step that is left. -/
theorem optimize_spec (isReachable : C → C → Bool) (path : List C) :
    ∃ optimized, (∀ fuel, path.length ≤ fuel →
        optimize isReachable fuel path = some optimized) ∧
      optimized.Sublist path ∧ optimized.head? = path.head? ∧
      optimized.getLast? = path.getLast? ∧
      (path.IsChain (fun a b ↦ isReachable a b = true) →
        optimized.IsChain fun a b ↦ isReachable a b = true) := by
  rcases Nat.lt_or_ge path.length 3 with hshort | hlong
  · exact ⟨path, fun fuel _ ↦ if_pos hshort, List.Sublist.refl path, rfl, rfl, id⟩
  · obtain ⟨optimized, hrun, hkeep⟩ := shorten_spec isReachable path Nat.one_pos
      (show 1 < path.length by omega)
    refine ⟨optimized, fun fuel hfuel ↦ ?_, hkeep.sublist, hkeep.head, hkeep.getLast, hkeep.chain⟩
    rw [optimize, if_neg (by omega)]
    exact hrun fuel (by omega) (by omega)

end ShortcutOptimizer

end OpenHRP.PathEngine
