import Mathlib.Algebra.Order.Monoid.Unbundled.Basic
import Mathlib.Order.Bounds.Basic

/-!
# Costs of paths

The costs of the paths from one vertex of a weighted graph. Labels that bound the cost of every
edge from below bound the costs of all paths (`WeightedPath.exists_label_le`): this is how a search
that has expanded its labels knows that it has missed nothing.
-/

variable {V K : Type*} [AddCommMonoid K]

/-- There is a path from `start` to a vertex with a cost. -/
inductive WeightedPath (edge : V → V → K → Prop) (start : V) : V → K → Prop
  | nil : WeightedPath edge start start 0
  | snoc {v w : V} {c d : K} : WeightedPath edge start v c → edge v w d →
      WeightedPath edge start w (c + d)

namespace WeightedPath

variable {edge : V → V → K → Prop} {start v : V} {c : K}

/-- Labels that are closed under the edges, up to smaller ones, are below all costs. -/
theorem exists_label_le [PartialOrder K] [AddRightMono K] (h : WeightedPath edge start v c)
    (label : V → K → Prop) (hstart : ∃ d ≤ 0, label start d)
    (hedge : ∀ v w c d, label v c → edge v w d → ∃ e ≤ c + d, label w e) :
    ∃ d ≤ c, label v d := by
  induction h with
  | nil => exact hstart
  | snoc _ hvw ih =>
    obtain ⟨c', hc', hlabel⟩ := ih
    obtain ⟨e, he, hlabel'⟩ := hedge _ _ _ _ hlabel hvw
    exact ⟨e, he.trans (add_le_add_left hc' _), hlabel'⟩

end WeightedPath
