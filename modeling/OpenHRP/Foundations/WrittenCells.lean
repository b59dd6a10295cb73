import OpenHRP.Foundations.Stateful
import Mathlib.Logic.Nontrivial.Basic

/-!
# Computations that write cells

A memory is a function from cells to values. A computation that writes cells and does not read them
is blind: its result is the same from every memory, and it leaves a cell either as it was or with
the same value from every memory (`Blind`). So two computations differ where one of them overwrites
a cell that the other one keeps (`exists_ne_of_overwrites`).
-/

namespace OpenHRP.Stateful

variable {ε κ V α β : Type}

/-! ### Operations -/

/-- A computation that does not work on the state. -/
def lift (x : Except ε α) : Stateful ε (κ → V) α := fun s ↦ (x, s)

@[simp] theorem runOn_lift (x : Except ε α) (s : κ → V) : runOn (lift x) s = (x, s) := rfl

theorem lift_ok_bind (a : α) (f : α → Stateful ε (κ → V) β) : lift (.ok a) >>= f = f a := rfl

theorem lift_error_bind (e : ε) (f : α → Stateful ε (κ → V) β) :
    lift (.error e) >>= f = throw e := rfl

theorem forM_singleton (a : α) (f : α → Stateful ε (κ → V) PUnit) : [a].forM f = f a := by
  rw [List.forM_eq_forM, List.forM_cons]
  exact bind_pure_unit

/-- A result after the handler that catches some exceptions. -/
def handled (p : ε → Bool) : Except ε PUnit → Except ε PUnit
  | .ok _ => .ok ⟨⟩
  | .error e => if p e then .ok ⟨⟩ else .error e

/-- Catch some exceptions, and go on. -/
def catching (p : ε → Bool) (x : Stateful ε (κ → V) PUnit) : Stateful ε (κ → V) PUnit := fun s ↦
  (handled p (runOn x s).1, (runOn x s).2)

@[simp] theorem runOn_catching (p : ε → Bool) (x : Stateful ε (κ → V) PUnit) (s : κ → V) :
    runOn (catching p x) s = (handled p (runOn x s).1, (runOn x s).2) := rfl

/-- Write a cell. -/
def write [DecidableEq κ] (c : κ) (v : V) : Stateful ε (κ → V) PUnit :=
  modify fun s ↦ Function.update s c v

@[simp] theorem runOn_write [DecidableEq κ] (c : κ) (v : V) (s : κ → V) :
    runOn (write c v : Stateful ε (κ → V) PUnit) s = (.ok ⟨⟩, Function.update s c v) := rfl

/-! ### What a computation does -/

/-- The computation returns `a`, from every memory. -/
def Completes (x : Stateful ε (κ → V) α) (a : α) : Prop :=
  ∀ s, (runOn x s).1 = .ok a

/-- The computation leaves the cell as it was. -/
def Keeps (x : Stateful ε (κ → V) α) (c : κ) : Prop :=
  ∀ s, (runOn x s).2 c = s c

/-- The computation leaves the same value in the cell, from every memory. -/
def Overwrites (x : Stateful ε (κ → V) α) (c : κ) : Prop :=
  ∃ v, ∀ s, (runOn x s).2 c = v

/-- The computation does not read the memory. -/
structure Blind (x : Stateful ε (κ → V) α) : Prop where
  result : ∃ r, ∀ s, (runOn x s).1 = r
  cell : ∀ c, Keeps x c ∨ Overwrites x c

variable {x : Stateful ε (κ → V) α} {f : α → Stateful ε (κ → V) β} {c : κ} {a : α} {b : β}

theorem runOn_bind_of_completes (hx : Completes x a) (s : κ → V) :
    runOn (x >>= f) s = runOn (f a) (runOn x s).2 :=
  runOn_bind_ok (Prod.ext (hx s) rfl)

theorem Completes.bind (hx : Completes x a) (hf : Completes (f a) b) : Completes (x >>= f) b := by
  intro s
  rw [runOn_bind_of_completes hx]
  exact hf _

theorem Completes.catching {x : Stateful ε (κ → V) PUnit} (hx : Completes x ⟨⟩) (p : ε → Bool) :
    Completes (catching p x) ⟨⟩ := by
  intro s
  rw [runOn_catching, hx s]
  rfl

theorem Keeps.bind (hx : Keeps x c) (hf : ∀ a, Keeps (f a) c) : Keeps (x >>= f) c := by
  intro s
  rcases hrun : runOn x s with ⟨e | a, t⟩
  · rw [runOn_bind_error hrun, ← hx s, hrun]
  · rw [runOn_bind_ok hrun, hf a t, ← hx s, hrun]

theorem Keeps.catching {x : Stateful ε (κ → V) PUnit} (hx : Keeps x c) (p : ε → Bool) :
    Keeps (catching p x) c :=
  hx

variable {g : α → Stateful ε (κ → V) PUnit}

theorem Keeps.forM :
    ∀ {l : List α}, (∀ a ∈ l, Keeps (g a) c) → Keeps (l.forM g) c
  | [], _ => fun _ ↦ rfl
  | a :: _, h => (h a (.head _)).bind fun _ ↦ Keeps.forM fun b hb ↦ h b (.tail a hb)

/-- A computation that keeps all cells leaves the memory. -/
theorem runOn_snd_of_keeps (h : ∀ c, Keeps x c) (s : κ → V) : (runOn x s).2 = s :=
  funext fun c ↦ h c s

theorem keeps_write [DecidableEq κ] {c' : κ} (h : c ≠ c') (v : V) :
    Keeps (write c' v : Stateful ε (κ → V) PUnit) c := by
  intro s
  show Function.update s c' v c = s c
  exact Function.update_of_ne h v s

theorem overwrites_write [DecidableEq κ] (c : κ) (v : V) :
    Overwrites (write c v : Stateful ε (κ → V) PUnit) c := by
  refine ⟨v, fun s ↦ ?_⟩
  show Function.update s c v c = v
  exact Function.update_self c v s

theorem Overwrites.bind (hx : Blind x) (hover : Overwrites x c) (hf : ∀ a, Blind (f a)) :
    Overwrites (x >>= f) c := by
  obtain ⟨r, hr⟩ := hx.result
  obtain ⟨v, hv⟩ := hover
  rcases r with e | a
  · exact ⟨v, fun s ↦ by rw [runOn_bind_error (Prod.ext (hr s) rfl), hv]⟩
  · rcases (hf a).cell c with hkeeps | ⟨w, hw⟩
    · exact ⟨v, fun s ↦ by rw [runOn_bind_of_completes hr, hkeeps, hv]⟩
    · exact ⟨w, fun s ↦ by rw [runOn_bind_of_completes hr, hw]⟩

theorem Overwrites.catching {x : Stateful ε (κ → V) PUnit} (hx : Overwrites x c) (p : ε → Bool) :
    Overwrites (catching p x) c :=
  hx

theorem Overwrites.bind_of_completes (hx : Completes x a) (hf : Overwrites (f a) c) :
    Overwrites (x >>= f) c := by
  obtain ⟨v, hv⟩ := hf
  exact ⟨v, fun s ↦ by rw [runOn_bind_of_completes hx, hv]⟩

namespace Blind

theorem lift (x : Except ε α) : Blind (lift x : Stateful ε (κ → V) α) :=
  ⟨⟨x, fun _ ↦ rfl⟩, fun _ ↦ .inl fun _ ↦ rfl⟩

theorem pure (a : α) : Blind (pure a : Stateful ε (κ → V) α) :=
  ⟨⟨.ok a, fun _ ↦ rfl⟩, fun _ ↦ .inl fun _ ↦ rfl⟩

theorem throw (e : ε) : Blind (throw e : Stateful ε (κ → V) α) :=
  ⟨⟨.error e, fun _ ↦ rfl⟩, fun _ ↦ .inl fun _ ↦ rfl⟩

theorem write [DecidableEq κ] (c : κ) (v : V) :
    Blind (write c v : Stateful ε (κ → V) PUnit) where
  result := ⟨.ok ⟨⟩, fun _ ↦ rfl⟩
  cell c' := by
    by_cases h : c' = c
    · rw [h]
      exact .inr (overwrites_write c v)
    · exact .inl (keeps_write h v)

theorem catching {x : Stateful ε (κ → V) PUnit} (hx : Blind x) (p : ε → Bool) :
    Blind (catching p x) where
  result := by
    obtain ⟨r, hr⟩ := hx.result
    exact ⟨handled p r, fun s ↦ by rw [runOn_catching, hr]⟩
  cell := hx.cell

theorem bind (hx : Blind x) (hf : ∀ a, Blind (f a)) : Blind (x >>= f) := by
  refine ⟨?_, fun c ↦ ?_⟩
  · obtain ⟨r, hr⟩ := hx.result
    rcases r with e | a
    · exact ⟨.error e, fun s ↦ by rw [runOn_bind_error (Prod.ext (hr s) rfl)]⟩
    · obtain ⟨r', hr'⟩ := (hf a).result
      exact ⟨r', fun s ↦ by rw [runOn_bind_of_completes hr, hr']⟩
  · rcases hx.cell c with hkeeps | hover
    · obtain ⟨r, hr⟩ := hx.result
      rcases r with e | a
      · exact .inl fun s ↦ by rw [runOn_bind_error (Prod.ext (hr s) rfl), hkeeps]
      · rcases (hf a).cell c with hkeeps' | hover
        · exact .inl fun s ↦ by rw [runOn_bind_of_completes hr, hkeeps', hkeeps]
        · exact .inr (hover.bind_of_completes hr)
    · exact .inr (hover.bind hx hf)

theorem forM (h : ∀ a, Blind (g a)) :
    ∀ l : List α, Blind (l.forM g)
  | [] => pure _
  | a :: l => (h a).bind fun _ ↦ forM h l

end Blind

/-- One of the elements of a list overwrites a cell, and those before it return. -/
theorem Overwrites.forM (hg : ∀ a, Blind (g a)) :
    ∀ {l : List α}, (∀ a ∈ l, Completes (g a) ⟨⟩) → (∃ a ∈ l, Overwrites (g a) c) →
      Overwrites (l.forM g) c
  | a :: l, hl, ⟨b, hb, hover⟩ => by
    rcases List.mem_cons.1 hb with rfl | hb
    · exact hover.bind (hg b) fun _ ↦ Blind.forM hg l
    · exact bind_of_completes (hl a (.head l))
        (Overwrites.forM hg (fun a' ha' ↦ hl a' (.tail a ha')) ⟨b, hb, hover⟩)

/-- Computations differ where one overwrites a cell that the other one keeps. -/
theorem exists_ne_of_overwrites [Nontrivial V] {y : Stateful ε (κ → V) β} (hx : Overwrites x c)
    (hy : Keeps y c) : ∃ s, (runOn x s).2 ≠ (runOn y s).2 := by
  obtain ⟨v, hv⟩ := hx
  obtain ⟨w, hw⟩ := exists_ne v
  refine ⟨fun _ ↦ w, fun h ↦ hw ?_⟩
  rw [← hv fun _ ↦ w, h, hy]

end OpenHRP.Stateful
