import Mathlib.Data.List.Nodup

/-!
# Lists threaded through their elements

An intrusive list keeps in each element the pointer to the next one. `Threads next p l` says that
the elements met from the pointer `p` are those of `l`, and that the last of them points to nothing.
The pointers determine the list (`Threads.eq`), so none of its elements comes twice
(`Threads.nodup`).

The three things a program does to such a list are to put an element in front of it
(`Threads.cons`), to cut an element out behind another (`Threads.cut`), and to change the pointers
of elements that are not on it (`Threads.congr`).
-/

variable {α : Type*} {next next' : α → Option α} {p : Option α} {l l' : List α}

/-- Following `next` from `p` meets the elements of the list and then ends. -/
def Threads (next : α → Option α) : Option α → List α → Prop
  | p, [] => p = none
  | p, x :: l => p = some x ∧ Threads next (next x) l

namespace Threads

/-- Pointers of other elements do not matter. -/
theorem congr (h : Threads next p l) (hnext : ∀ x ∈ l, next' x = next x) : Threads next' p l := by
  induction l generalizing p with
  | nil => exact h
  | cons x l ih =>
    refine ⟨h.1, ?_⟩
    rw [hnext x List.mem_cons_self]
    exact ih h.2 fun y hy ↦ hnext y (List.mem_cons_of_mem x hy)

/-- The pointers determine the list. -/
theorem eq (h : Threads next p l) (h' : Threads next p l') : l = l' := by
  induction l generalizing p l' with
  | nil =>
    rcases l' with _ | ⟨y, l'⟩
    · rfl
    · cases h.symm.trans h'.1
  | cons x l ih =>
    rcases l' with _ | ⟨y, l'⟩
    · cases h.1.symm.trans h'
    · obtain rfl : x = y := Option.some_inj.1 (h.1.symm.trans h'.1)
      rw [ih h.2 h'.2]

theorem behind {l₁ l₂ : List α} {x : α} (h : Threads next p (l₁ ++ x :: l₂)) :
    Threads next (next x) l₂ := by
  induction l₁ generalizing p with
  | nil => exact h.2
  | cons y l₁ ih => exact ih h.2

theorem nodup (h : Threads next p l) : l.Nodup := by
  induction l generalizing p with
  | nil => exact List.nodup_nil
  | cons x l ih =>
    refine List.nodup_cons.2 ⟨fun hx ↦ ?_, ih h.2⟩
    -- the same pointer would lead to the list behind `x` and to a part of it
    obtain ⟨l₁, l₂, rfl⟩ := List.append_of_mem hx
    have heq : l₁ ++ x :: l₂ = l₂ := h.2.eq h.2.behind
    have hlen := congrArg List.length heq
    simp only [List.length_append, List.length_cons] at hlen
    omega

variable [DecidableEq α]

theorem cons {x : α} (h : Threads next p l) (hx : x ∉ l) :
    Threads (Function.update next x p) (some x) (x :: l) := by
  refine ⟨rfl, ?_⟩
  rw [Function.update_self]
  exact h.congr fun _ hy ↦ Function.update_of_ne (ne_of_mem_of_not_mem hy hx) _ _

/-- Cutting out the element behind another. -/
theorem cut {l₁ l₂ : List α} {a x : α} (h : Threads next p (l₁ ++ a :: x :: l₂)) :
    Threads (Function.update next a (next x)) p (l₁ ++ a :: l₂) := by
  have hnd := h.nodup
  induction l₁ generalizing p with
  | nil =>
    refine ⟨h.1, ?_⟩
    rw [Function.update_self]
    have ha : a ∉ x :: l₂ := (List.nodup_cons.1 hnd).1
    exact h.2.2.congr fun _ hy ↦
      Function.update_of_ne (ne_of_mem_of_not_mem (List.mem_cons_of_mem x hy) ha) _ _
  | cons y l₁ ih =>
    have hya : y ≠ a := fun e ↦ (List.nodup_cons.1 hnd).1 (by simp [e])
    refine ⟨h.1, ?_⟩
    rw [Function.update_of_ne hya]
    exact ih h.2 (List.nodup_cons.1 hnd).2

end Threads
