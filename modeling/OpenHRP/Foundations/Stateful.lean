import Mathlib.Control.Basic

/-!
# Computations that keep their state when they throw

A `Stateful` computation works on a state and may throw. What it has done to the state before it
throws stays done. `Leads` states what a computation does to the state whether it throws or not.
-/

namespace OpenHRP

/-- A computation on a state that may throw. -/
abbrev Stateful (ε σ α : Type) := ExceptT ε (StateM σ) α

namespace Stateful

variable {ε σ α β : Type}

/-- The result of a computation, and the state that it leaves. -/
def runOn (x : Stateful ε σ α) (s : σ) : Except ε α × σ :=
  x.run.run s

@[simp] theorem runOn_pure (a : α) (s : σ) : runOn (pure a : Stateful ε σ α) s = (.ok a, s) := rfl

@[simp] theorem runOn_throw (e : ε) (s : σ) :
    runOn (throw e : Stateful ε σ α) s = (.error e, s) := rfl

@[simp] theorem runOn_get (s : σ) : runOn (get : Stateful ε σ σ) s = (.ok s, s) := rfl

@[simp] theorem runOn_modify (f : σ → σ) (s : σ) :
    runOn (modify f : Stateful ε σ Unit) s = (.ok (), f s) := rfl

variable {x : Stateful ε σ α} {f : α → Stateful ε σ β}

theorem runOn_bind_ok {s t : σ} {a : α}
    (hx : runOn x s = (.ok a, t)) : runOn (x >>= f) s = runOn (f a) t := by
  rw [runOn, ExceptT.run_bind, StateT.run_bind, show x.run.run s = (.ok a, t) from hx]
  rfl

theorem runOn_bind_error {s t : σ} {e : ε}
    (hx : runOn x s = (.error e, t)) : runOn (x >>= f) s = (.error e, t) := by
  rw [runOn, ExceptT.run_bind, StateT.run_bind, show x.run.run s = (.error e, t) from hx]
  rfl

/-- From a state with the first property a computation leads to one with the second, whether it
throws or not. -/
def Leads (P : σ → Prop) (x : Stateful ε σ α) (Q : σ → Prop) : Prop :=
  ∀ s, P s → Q (runOn x s).2

variable {P Q R : σ → Prop}

namespace Leads

theorem pure (a : α) (h : ∀ s, P s → Q s) : Leads P (pure a : Stateful ε σ α) Q :=
  h

theorem throw (e : ε) (h : ∀ s, P s → Q s) : Leads P (throw e : Stateful ε σ α) Q :=
  h

theorem modify {f : σ → σ} (h : ∀ s, P s → Q (f s)) :
    Leads P (modify f : Stateful ε σ Unit) Q :=
  h

theorem get (h : ∀ s, P s → Q s) : Leads P (get : Stateful ε σ σ) Q :=
  h

theorem mono (hx : Leads P x Q) (hQ : ∀ s, Q s → R s) : Leads P x R :=
  fun s hs ↦ hQ _ (hx s hs)

/-- A property that a step keeps has to hold also where the step throws. -/
theorem bind (hx : Leads P x R)
    (hthrow : ∀ s, R s → Q s) (hf : ∀ a, Leads R (f a) Q) : Leads P (x >>= f) Q := by
  intro s hs
  rcases hrun : runOn x s with ⟨e | a, t⟩
  · have ht : R t := by simpa [hrun] using hx s hs
    rw [runOn_bind_error hrun]
    exact hthrow t ht
  · have ht : R t := by simpa [hrun] using hx s hs
    rw [runOn_bind_ok hrun]
    exact hf a t ht

/-- The state that is looked at has the property. -/
theorem get_bind {f : σ → Stateful ε σ β} (hf : ∀ s, P s → Leads P (f s) Q) :
    Leads P (MonadState.get >>= f) Q := by
  intro s hs
  rw [runOn_bind_ok (runOn_get s)]
  exact hf s hs s hs

/-- A property that every step keeps is kept by all of them. -/
theorem forM {f : α → Stateful ε σ PUnit} :
    ∀ {l : List α}, (∀ a ∈ l, Leads P (f a) P) → Leads P (l.forM f) P
  | [], _ => pure _ fun _ hs ↦ hs
  | a :: _, h => (h a (.head _)).bind (fun _ hs ↦ hs) fun _ ↦ forM fun b hb ↦ h b (.tail a hb)

end Leads

end Stateful

end OpenHRP
