import Mathlib.Data.List.Basic

/-!
# Computations that go on until they stop

A `Stoppable` computation works on a state and has a result, or it stops for some reason and the
state is lost. A loop takes turns (`Stoppable.iterate`); one whose turns make the state smaller is
given as much fuel as the state is large (`Stoppable.loop`).
-/

namespace OpenHRP

/-- A computation on a state that may stop. -/
abbrev Stoppable (ε σ α : Type) := StateT σ (Except ε) α

namespace Stoppable

variable {ε σ α β : Type}

/-! ### Runs -/

/-- The computation that stops. -/
def stop (e : ε) : Stoppable ε σ α := fun _ ↦ .error e

theorem bind_of_ok {p : Stoppable ε σ α} {f : α → Stoppable ε σ β} {s s' : σ} {a : α}
    (h : p s = .ok (a, s')) : (p >>= f) s = f a s' := by
  show (p s >>= fun r ↦ f r.1 r.2) = _
  rw [h]
  rfl

theorem bind_of_error {p : Stoppable ε σ α} {f : α → Stoppable ε σ β} {s : σ} {e : ε}
    (h : p s = .error e) : (p >>= f) s = .error e := by
  show (p s >>= fun r ↦ f r.1 r.2) = _
  rw [h]
  rfl

/-- Turns of a loop, as many as there is fuel. A turn either goes on or ends the loop. -/
def iterate (e : ε) (turn : β → Stoppable ε σ (β ⊕ α)) : ℕ → β → Stoppable ε σ α
  | 0, _ => stop e
  | fuel + 1, b => do
    match ← turn b with
    | .inl b => iterate e turn fuel b
    | .inr a => pure a

section Turns

variable {e : ε} {turn : β → Stoppable ε σ (β ⊕ α)} {b : β} {s s' : σ}

theorem iterate_of_inl {b' : β} (h : turn b s = .ok (.inl b', s')) (fuel : ℕ) :
    iterate e turn (fuel + 1) b s = iterate e turn fuel b' s' :=
  bind_of_ok h

theorem iterate_of_inr {a : α} (h : turn b s = .ok (.inr a, s')) (fuel : ℕ) :
    iterate e turn (fuel + 1) b s = .ok (a, s') :=
  bind_of_ok h

theorem iterate_of_error {e' : ε} (h : turn b s = .error e') (fuel : ℕ) :
    iterate e turn (fuel + 1) b s = .error e' :=
  bind_of_error h

end Turns

/-- A loop that stops for the given reason if it takes more turns than the state is large. -/
def loop (size : σ → ℕ) (e : ε) (turn : β → Stoppable ε σ (β ⊕ α)) (b : β) : Stoppable ε σ α :=
  fun s ↦ iterate e turn (size s + 1) b s

end Stoppable

end OpenHRP
