import Mathlib.Data.List.Pairwise
import Mathlib.Data.List.Induction

/-!
# Merging a list up to a relation

Going through a list and keeping every element that is not near one already kept leaves the list
`distinct near l`. An element stands for all those near it that come after it: `classOf near l x` is
the place of the first kept element near `x`. Neither changes when the list goes on
(`isPrefix_distinct_append`, `classOf_append`), so a table that is filled element by element can
hand out places in it before it is complete.
-/

variable {α : Type*} (near : α → α → Prop) [DecidableRel near]

/-- The elements of a list that are not near an earlier one that is kept. -/
def distinct (l : List α) : List α :=
  (l.reverse.pwFilter fun x y ↦ ¬ near y x).reverse

/-- The place of the first kept element near `x`, and the end of the list if there is none. -/
def classOf (l : List α) (x : α) : ℕ :=
  (distinct near l).findIdx (near · x)

@[simp] theorem distinct_nil : distinct near [] = [] :=
  rfl

variable {near} {l l' : List α} {x : α}

theorem distinct_concat_of_near (h : ∃ y ∈ distinct near l, near y x) :
    distinct near (l ++ [x]) = distinct near l := by
  obtain ⟨y, hy, hyx⟩ := h
  rw [distinct, List.reverse_append, List.reverse_singleton, List.singleton_append,
    List.pwFilter_cons_of_neg fun hall ↦ hall y (List.mem_reverse.1 hy) hyx, distinct]

theorem distinct_concat_of_not_near (h : ∀ y ∈ distinct near l, ¬ near y x) :
    distinct near (l ++ [x]) = distinct near l ++ [x] := by
  rw [distinct, List.reverse_append, List.reverse_singleton, List.singleton_append,
    List.pwFilter_cons_of_pos fun y hy ↦ h y (List.mem_reverse.2 hy), List.reverse_cons, distinct]

theorem mem_of_mem_distinct (h : x ∈ distinct near l) : x ∈ l :=
  List.mem_reverse.1 (List.pwFilter_subset _ (List.mem_reverse.1 h))

variable (near) in
/-- The kept elements stay where they are when the list goes on. -/
theorem isPrefix_distinct_append (l l' : List α) : distinct near l <+: distinct near (l ++ l') := by
  induction l' using List.reverseRecOn with
  | nil => exact (List.append_nil l).symm ▸ List.prefix_rfl
  | append_singleton l' x ih =>
    rw [← List.append_assoc]
    by_cases h : ∃ y ∈ distinct near (l ++ l'), near y x
    · rwa [distinct_concat_of_near h]
    · rw [distinct_concat_of_not_near fun y hy hyx ↦ h ⟨y, hy, hyx⟩]
      exact ih.trans (List.prefix_append _ _)

/-- Every element is near one that is kept. -/
theorem exists_near_of_mem (hrefl : ∀ x, near x x) (h : x ∈ l) :
    ∃ y ∈ distinct near l, near y x := by
  obtain ⟨l₁, l₂, rfl⟩ := List.append_of_mem h
  have hpre : distinct near (l₁ ++ [x]) <+: distinct near (l₁ ++ x :: l₂) := by
    have h := isPrefix_distinct_append near (l₁ ++ [x]) l₂
    rwa [List.append_assoc, List.singleton_append] at h
  by_cases hx : ∃ y ∈ distinct near l₁, near y x
  · obtain ⟨y, hy, hyx⟩ := hx
    exact ⟨y, ((isPrefix_distinct_append near l₁ [x]).trans hpre).subset hy, hyx⟩
  · rw [distinct_concat_of_not_near fun y hy hyx ↦ hx ⟨y, hy, hyx⟩] at hpre
    exact ⟨x, hpre.subset (List.mem_append_right _ List.mem_cons_self), hrefl x⟩

theorem distinct_eq_nil_iff : distinct near l = [] ↔ l = [] := by
  refine ⟨fun h ↦ ?_, fun h ↦ by rw [h, distinct_nil]⟩
  cases l with
  | nil => rfl
  | cons x l =>
    have hpre := (isPrefix_distinct_append near [x] l).subset
    rw [List.singleton_append, h] at hpre
    have hx : x ∈ distinct near ([] ++ [x]) := by
      rw [distinct_concat_of_not_near fun y hy ↦ absurd hy List.not_mem_nil]
      exact List.mem_append_right _ List.mem_cons_self
    exact absurd (hpre hx) List.not_mem_nil

/-! ### Places -/

theorem classOf_lt_iff :
    classOf near l x < (distinct near l).length ↔ ∃ y ∈ distinct near l, near y x := by
  simp [classOf, List.findIdx_lt_length]

theorem classOf_eq_length (h : ∀ y ∈ distinct near l, ¬ near y x) :
    classOf near l x = (distinct near l).length :=
  List.findIdx_eq_length_of_false fun y hy ↦ decide_eq_false (h y hy)

/-- The place of an element is that of something near it. -/
theorem near_classOf (h : ∃ y ∈ distinct near l, near y x) :
    ∃ y, (distinct near l)[classOf near l x]? = some y ∧ near y x := by
  have hlt := classOf_lt_iff.2 h
  exact ⟨_, List.getElem?_eq_getElem hlt, of_decide_eq_true (List.findIdx_getElem (w := hlt))⟩

/-- The place of an element does not change when the list goes on. -/
theorem classOf_append (h : ∃ y ∈ distinct near l, near y x) (l' : List α) :
    classOf near (l ++ l') x = classOf near l x := by
  obtain ⟨t, ht⟩ := isPrefix_distinct_append near l l'
  have hlt := classOf_lt_iff.2 h
  rw [classOf, ← ht, List.findIdx_append, ← classOf, if_pos hlt]

/-- The element that comes next gets the place that it has from then on. -/
theorem classOf_concat_self (hrefl : ∀ x, near x x) (l : List α) (x : α) :
    classOf near (l ++ [x]) x = classOf near l x := by
  by_cases h : ∃ y ∈ distinct near l, near y x
  · exact classOf_append h [x]
  · have hnone : ∀ y ∈ distinct near l, ¬ near y x := fun y hy hyx ↦ h ⟨y, hy, hyx⟩
    rw [classOf, distinct_concat_of_not_near hnone, List.findIdx_append, classOf_eq_length hnone,
      ← classOf, classOf_eq_length hnone, if_neg (Nat.lt_irrefl _), List.findIdx_cons,
      decide_eq_true (hrefl x)]
    exact Nat.zero_add _

/-! ### First occurrences -/

section First

variable [DecidableEq α]

theorem mem_distinct_eq : x ∈ distinct (· = ·) l ↔ x ∈ l := by
  refine ⟨mem_of_mem_distinct, fun h ↦ ?_⟩
  obtain ⟨y, hy, rfl⟩ : ∃ y ∈ distinct (· = ·) l, y = x := exists_near_of_mem (fun _ ↦ rfl) h
  exact hy

theorem distinct_eq_concat_of_mem (h : x ∈ l) :
    distinct (· = ·) (l ++ [x]) = distinct (· = ·) l :=
  distinct_concat_of_near ⟨x, mem_distinct_eq.2 h, rfl⟩

theorem distinct_eq_concat_of_notMem (h : x ∉ l) :
    distinct (· = ·) (l ++ [x]) = distinct (· = ·) l ++ [x] :=
  distinct_concat_of_not_near fun _ hy heq ↦ h (heq ▸ mem_distinct_eq.1 hy)

theorem nodup_distinct_eq (l : List α) : (distinct (· = ·) l).Nodup := by
  induction l using List.reverseRecOn with
  | nil => exact List.nodup_nil
  | append_singleton l x ih =>
    rcases Decidable.em (x ∈ l) with h | h
    · rwa [distinct_eq_concat_of_mem h]
    · rw [distinct_eq_concat_of_notMem h, List.nodup_append]
      refine ⟨ih, List.pairwise_singleton _ x, fun y hy z hz heq ↦ h ?_⟩
      rw [← List.mem_singleton.1 hz, ← heq]
      exact mem_distinct_eq.1 hy

/-- What comes before an element is what has come before its first occurrence. -/
theorem takeWhile_distinct_eq (h : x ∉ l) (l' : List α) :
    (distinct (· = ·) (l ++ x :: l')).takeWhile (· ≠ x) = distinct (· = ·) l := by
  have hpre := isPrefix_distinct_append (· = ·) (l ++ [x]) l'
  rw [distinct_eq_concat_of_notMem h, List.append_assoc, List.singleton_append] at hpre
  obtain ⟨t, ht⟩ := hpre
  have hbefore : ∀ y ∈ distinct (· = ·) l, decide (y ≠ x) = true := fun y hy ↦
    decide_eq_true fun heq ↦ h (mem_distinct_eq.1 (heq ▸ hy))
  rw [← ht, List.append_assoc, List.singleton_append, List.takeWhile_append_of_pos hbefore,
    List.takeWhile_cons_of_neg (by simp), List.append_nil]

end First
