import OpenHRP.Foundations.Literals
import Mathlib.LinearAlgebra.Matrix.Notation

/-!
# Loops that fill a matrix column by column

In the unit-vector method a loop perturbs a state, measures it, writes the result as one column of
a matrix and undoes the perturbation. The state need not come back exactly: it is enough that what
the measurements read (`P`) does.
-/

variable {σ ρ γ κ K : Type*} [DecidableEq γ]

/-- A loop whose turn `k` writes the column `g k`, with values that depend only on what `P`
says about the state. -/
theorem foldl_updateCol {f : σ × Matrix ρ γ K → κ → σ × Matrix ρ γ K} {g : κ → γ} {c : κ → ρ → K}
    {P : σ → Prop} (hf : ∀ s M k, P s → P (f (s, M) k).1 ∧ (f (s, M) k).2 = M.updateCol (g k) (c k))
    (hg : Function.Injective g) {l : List κ} (hl : l.Nodup) {r : σ × Matrix ρ γ K} (hr : P r.1) :
    let r' := l.foldl f r
    P r'.1 ∧ (∀ k ∈ l, ∀ i, r'.2 i (g k) = c k i) ∧
      ∀ e, (∀ k ∈ l, e ≠ g k) → ∀ i, r'.2 i e = r.2 i e := by
  induction l generalizing r with
  | nil => exact ⟨hr, by simp, fun _ _ _ ↦ rfl⟩
  | cons k l ih =>
    rw [List.nodup_cons] at hl
    obtain ⟨hP, hM⟩ := hf r.1 r.2 k hr
    obtain ⟨hr', hcol, hrest⟩ := ih hl.2 hP
    refine ⟨hr', fun k' hk' i ↦ ?_, fun e he i ↦ ?_⟩
    · rcases List.mem_cons.1 hk' with rfl | hk'
      · have hne : ∀ k'' ∈ l, g k' ≠ g k'' := fun k'' hk'' e ↦ hl.1 (hg e ▸ hk'')
        rw [List.foldl_cons, hrest (g k') hne, hM, Matrix.updateCol_self]
      · exact hcol k' hk' i
    · rw [List.foldl_cons, hrest e fun k' hk' ↦ he k' (List.mem_cons_of_mem k hk'), hM,
        Matrix.updateCol_ne (he k List.mem_cons_self)]
