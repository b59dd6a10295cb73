import Mathlib.Data.List.Forall2

/-!
# Runs

A run of a system is a left fold of its step function over the list of its inputs. `Along` says
that every step of a run meets a condition on its input and on the state before it. An invariant
that a step keeps when it meets the condition holds after such a run (`Along.foldl`).

Where a step need not have a result, the run ends at the first step without one, and `AlongSome`
says that every step with a result meets a condition. Where the condition is met exactly by the
steps that keep an invariant, it says that the invariant holds all along the run
(`AlongSome.forall_take_iff`).
-/

variable {σ α : Type*}

/-- Every step of the run over the list from `s` meets the condition `P`. -/
def Along (step : σ → α → σ) (P : σ → α → Prop) : σ → List α → Prop
  | _, [] => True
  | s, a :: l => P s a ∧ Along step P (step s a) l

namespace Along

variable {step : σ → α → σ} {P : σ → α → Prop} {I : σ → Prop} {s : σ} {l l' : List α}

instance decidable [hP : ∀ s a, Decidable (P s a)] : ∀ s l, Decidable (Along step P s l)
  | _, [] => inferInstanceAs (Decidable True)
  | s, a :: l => @instDecidableAnd _ _ (hP s a) (decidable (step s a) l)

theorem and {Q : σ → α → Prop} (h : Along step P s l) (h' : Along step Q s l) :
    Along step (fun s a ↦ P s a ∧ Q s a) s l := by
  induction l generalizing s with
  | nil => trivial
  | cons a l ih => exact ⟨⟨h.1, h'.1⟩, ih h.2 h'.2⟩

/-- An invariant of the steps that meet the condition holds after a run of such steps. -/
theorem foldl (h : Along step P s l) (hs : I s) (hstep : ∀ s a, I s → P s a → I (step s a)) :
    I (l.foldl step s) := by
  induction l generalizing s with
  | nil => exact hs
  | cons a l ih => exact ih h.2 (hstep s a hs h.1)

end Along

/-- An invariant of every step holds after every run. -/
theorem foldl_invariant {step : σ → α → σ} {I : σ → Prop} {s : σ} (hs : I s)
    (hstep : ∀ s a, I s → I (step s a)) (l : List α) : I (l.foldl step s) := by
  induction l generalizing s with
  | nil => exact hs
  | cons a l ih => exact ih (hstep s a hs)

variable {step : σ → α → Option σ} {l : List α}

/-- An invariant of every step with a result holds after a run that has a result. -/
theorem foldlM_invariant {I : σ → Prop} {s t : σ} (hs : I s)
    (hstep : ∀ s, ∀ a ∈ l, ∀ t, I s → step s a = some t → I t) (h : l.foldlM step s = some t) :
    I t := by
  induction l generalizing s with
  | nil => exact Option.some.inj h ▸ hs
  | cons a l ih =>
    rw [List.foldlM_cons] at h
    obtain ⟨s', hs', h⟩ := Option.bind_eq_some_iff.1 h
    exact ih (hstep s a List.mem_cons_self s' hs hs')
      (fun s b hb ↦ hstep s b (List.mem_cons_of_mem a hb)) h

/-- A run whose steps change nothing. -/
theorem foldlM_eq_self {s : σ} (h : ∀ a ∈ l, step s a = some s) : l.foldlM step s = some s := by
  induction l with
  | nil => rfl
  | cons a l ih =>
    rw [List.foldlM_cons, h a List.mem_cons_self]
    exact ih fun b hb ↦ h b (List.mem_cons_of_mem a hb)

variable {β : Type*}

/-- A run over lists that are put together. -/
theorem foldlM_flatMap (f : β → List α) (s : σ) (l : List β) :
    (l.flatMap f).foldlM step s = l.foldlM (fun s b ↦ (f b).foldlM step s) s := by
  induction l generalizing s with
  | nil => rfl
  | cons b l ih =>
    rw [List.flatMap_cons, List.foldlM_append, List.foldlM_cons]
    exact congrArg (Option.bind _) (funext ih)

variable {f : α → Option β}

/-- A list is mapped when every element is. -/
theorem mapM_eq_some_iff {l' : List β} :
    l.mapM f = some l' ↔ List.Forall₂ (fun a b ↦ f a = some b) l l' := by
  induction l generalizing l' with
  | nil => rw [List.mapM_nil, List.forall₂_nil_left_iff, Option.pure_def, Option.some_inj, eq_comm]
  | cons a l ih =>
    rw [List.mapM_cons, List.forall₂_cons_left_iff]
    cases ha : f a with
    | none => simp
    | some b =>
      simp only [Option.bind_eq_bind, Option.bind_some, Option.bind_eq_some_iff, Option.pure_def,
        Option.some_inj, ih]
      exact ⟨fun ⟨l', hl, h⟩ ↦ ⟨b, l', rfl, hl, h.symm⟩, fun ⟨_, l', rfl, hl, h⟩ ↦ ⟨l', hl, h.symm⟩⟩

theorem exists_of_mem_mapM {l' : List β} (h : l.mapM f = some l') {b : β} (hb : b ∈ l')
    : ∃ a ∈ l, f a = some b := by
  have h' := mapM_eq_some_iff.1 h
  clear h
  induction h' with
  | nil => exact absurd hb List.not_mem_nil
  | cons hab _ ih =>
    obtain rfl | hb := List.mem_cons.1 hb
    · exact ⟨_, List.mem_cons_self, hab⟩
    · obtain ⟨a, ha, h⟩ := ih hb
      exact ⟨a, List.mem_cons_of_mem _ ha, h⟩

theorem exists_mapM_eq_some_iff :
    (∃ l', l.mapM f = some l') ↔ ∀ a ∈ l, ∃ b, f a = some b := by
  simp only [mapM_eq_some_iff]
  induction l with
  | nil => simp
  | cons a l ih =>
    rw [List.forall_mem_cons, ← ih]
    constructor
    · rintro ⟨l', h⟩
      obtain ⟨b, l', hb, hl, rfl⟩ := List.forall₂_cons_left_iff.1 h
      exact ⟨⟨b, hb⟩, l', hl⟩
    · rintro ⟨⟨b, hb⟩, l', hl⟩
      exact ⟨b :: l', .cons hb hl⟩

/-- Every step of the run over the list from `s` that has a result meets the condition `P`. -/
def AlongSome (step : σ → α → Option σ) (P : σ → α → Prop) : σ → List α → Prop
  | _, [] => True
  | s, a :: l => ∀ s', step s a = some s' → P s a ∧ AlongSome step P s' l

/-- Under the condition `Q`, the steps that keep the invariant are those that meet `P`. -/
theorem AlongSome.forall_take_iff {P Q : σ → α → Prop} {I : σ → Prop}
    (hstep : ∀ {s a s'}, I s → Q s a → step s a = some s' → (I s' ↔ P s a)) {s : σ}
    (hQ : AlongSome step Q s l) (hs : I s) :
    (∀ k s', (l.take k).foldlM step s = some s' → I s') ↔ AlongSome step P s l := by
  induction l generalizing s with
  | nil =>
    refine iff_of_true (fun k s' h ↦ ?_) trivial
    rw [List.take_nil] at h
    exact Option.some.inj h ▸ hs
  | cons a l ih =>
    have hrun : ∀ {s'} (k : ℕ), step s a = some s' →
        ((a :: l).take (k + 1)).foldlM step s = (l.take k).foldlM step s' := fun k h ↦ by
      rw [List.take_succ_cons, List.foldlM_cons, h]
      rfl
    refine ⟨fun h s' hs' ↦ ?_, fun h k t ht ↦ ?_⟩
    · have hI : I s' := h 1 s' ((hrun 0 hs').trans rfl)
      obtain ⟨hq, hQ⟩ := hQ s' hs'
      refine ⟨(hstep hs hq hs').1 hI, (ih hQ hI).1 fun k t ht ↦ ?_⟩
      exact h (k + 1) t ((hrun k hs').trans ht)
    · rcases k with - | k
      · exact Option.some.inj ht ▸ hs
      · rcases hs' : step s a with - | s'
        · rw [List.take_succ_cons, List.foldlM_cons, hs'] at ht
          cases ht
        · obtain ⟨hq, hQ⟩ := hQ s' hs'
          obtain ⟨hp, hP⟩ := h s' hs'
          rw [hrun k hs'] at ht
          exact (ih hQ ((hstep hs hq hs').2 hp)).2 hP k t ht
