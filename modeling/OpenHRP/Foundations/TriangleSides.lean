import Mathlib.Analysis.Convex.Combination
import Mathlib.LinearAlgebra.CrossProduct
import Mathlib.LinearAlgebra.Matrix.DotProduct
import Mathlib.Tactic.Linarith

/-!
# Where a segment crosses a triangle

The point where a segment crosses a plane is found from the distances of its ends to the plane
(`crossing`), and is between the ends when these are on different sides.

A point of the plane of a triangle lies in the triangle when it is on the inner side of each edge
(`mem_triangle_of_sides`). A side is told by a vector normal to the edge. It need not lie in the
plane of the triangle: if it is also normal to a line that crosses the plane, then every point of
the line shows on which side the line crosses.
-/

open Matrix Pointwise

variable {K : Type*} [Field K] {a b c x x₁ x₂ n g g₁ g₂ g₃ : Fin 3 → K} {d₁ d₂ : K}

/-! ### Crossing a plane -/

/-- The point where the segment from `x₁` to `x₂` crosses a plane, for the distances of its
ends. -/
def crossing (x₁ x₂ : Fin 3 → K) (d₁ d₂ : K) : Fin 3 → K :=
  (d₁ - d₂)⁻¹ • (d₁ • x₂ - d₂ • x₁)

theorem crossing_symm (x₁ x₂ : Fin 3 → K) (d₁ d₂ : K) :
    crossing x₂ x₁ d₂ d₁ = crossing x₁ x₂ d₁ d₂ := by
  rw [crossing, crossing, ← neg_sub d₁ d₂, ← neg_sub (d₁ • x₂), inv_neg, neg_smul_neg]

theorem crossing_eq (hd : d₁ ≠ d₂) :
    crossing x₁ x₂ d₁ d₂ = x₁ + (d₁ / (d₁ - d₂)) • (x₂ - x₁) := by
  have hne : d₁ - d₂ ≠ 0 := sub_ne_zero.2 hd
  rw [crossing, ← smul_right_injective _ hne |>.eq_iff, smul_inv_smul₀ hne, smul_add, smul_smul,
    mul_div_cancel₀ _ hne]
  module

theorem dotProduct_crossing (hd : d₁ ≠ d₂) (h₁ : n ⬝ᵥ (x₁ - a) = d₁) (h₂ : n ⬝ᵥ (x₂ - a) = d₂) :
    n ⬝ᵥ (crossing x₁ x₂ d₁ d₂ - a) = 0 := by
  have hne : d₁ - d₂ ≠ 0 := sub_ne_zero.2 hd
  have hdiff : n ⬝ᵥ (x₂ - x₁) = d₂ - d₁ := by
    rw [← h₁, ← h₂, ← dotProduct_sub, sub_sub_sub_cancel_right]
  rw [crossing_eq hd, add_sub_right_comm, dotProduct_add, h₁, dotProduct_smul, hdiff, smul_eq_mul,
    ← neg_sub d₁ d₂, mul_neg, div_mul_cancel₀ _ hne, add_neg_cancel]

/-- A vector normal to the segment does not tell the point from an end. -/
theorem dotProduct_crossing_of_normal (hd : d₁ ≠ d₂) (hg : g ⬝ᵥ (x₂ - x₁) = 0) :
    g ⬝ᵥ crossing x₁ x₂ d₁ d₂ = g ⬝ᵥ x₁ := by
  rw [crossing_eq hd, dotProduct_add, dotProduct_smul, hg, smul_zero, add_zero]

theorem cross_dotProduct_left (u v : Fin 3 → K) : u ⨯₃ v ⬝ᵥ u = 0 := by
  rw [dotProduct_comm, dot_self_cross]

theorem cross_dotProduct_right (u v : Fin 3 → K) : u ⨯₃ v ⬝ᵥ v = 0 := by
  rw [dotProduct_comm, dot_cross_self]

/-- A vector in the basis of two others and their cross product. -/
theorem cross_expand (u v w : Fin 3 → K) :
    (u ⨯₃ v ⬝ᵥ u ⨯₃ v) • w =
      (u ⨯₃ v ⬝ᵥ w ⨯₃ v) • u + (u ⨯₃ v ⬝ᵥ u ⨯₃ w) • v + (u ⨯₃ v ⬝ᵥ w) • u ⨯₃ v := by
  ext i
  fin_cases i <;> simp [cross_apply, dotProduct, Fin.sum_univ_three] <;> ring

/-! ### Triangles -/

variable [LinearOrder K]

/-- The closed triangle with these vertices. -/
def triangle (a b c : Fin 3 → K) : Set (Fin 3 → K) :=
  convexHull K {a, b, c}

theorem add_mem_triangle {o : Fin 3 → K} (h : x ∈ triangle (a - o) (b - o) (c - o)) :
    x + o ∈ triangle a b c := by
  have himage : o +ᵥ ({a - o, b - o, c - o} : Set (Fin 3 → K)) = {a, b, c} := by
    simp [Set.vadd_set_insert]
  rw [triangle, ← himage, convexHull_vadd, add_comm]
  exact Set.vadd_mem_vadd_set h

variable [IsStrictOrderedRing K]

/-- The crossing is between the ends if these are on different sides. -/
theorem crossing_mem_segment (h : d₁ * d₂ < 0) : crossing x₁ x₂ d₁ d₂ ∈ segment K x₁ x₂ := by
  have hne : d₁ ≠ d₂ := fun hd ↦ (mul_self_nonneg d₂).not_gt (hd ▸ h)
  rw [segment_eq_image', crossing_eq hne]
  refine ⟨_, ?_, rfl⟩
  rcases mul_neg_iff.1 h with ⟨h₁, h₂⟩ | ⟨h₁, h₂⟩
  · have hpos : 0 < d₁ - d₂ := by linarith
    exact ⟨(div_pos h₁ hpos).le, (div_le_one hpos).2 (by linarith)⟩
  · have hneg : d₁ - d₂ < 0 := by linarith
    exact ⟨(div_pos_of_neg_of_neg h₁ hneg).le, (div_le_one_of_neg hneg).2 (by linarith)⟩

theorem combination_mem_triangle {α β γ : K} (hα : 0 ≤ α) (hβ : 0 ≤ β) (hγ : 0 ≤ γ)
    (hsum : α + β + γ = 1) : α • a + β • b + γ • c ∈ triangle a b c := by
  have hmem := (convex_convexHull K {a, b, c}).sum_mem (t := Finset.univ) (w := ![α, β, γ])
    (z := ![a, b, c]) (fun i _ ↦ by fin_cases i <;> assumption)
    (by rw [Fin.sum_univ_three]; exact hsum)
    fun i _ ↦ subset_convexHull K _ (by fin_cases i <;> simp)
  rw [Fin.sum_univ_three] at hmem
  exact hmem

/-- A point of the plane of a triangle is a combination of the vertices. -/
theorem exists_combination (hn : (b - a) ⨯₃ (c - b) ≠ 0)
    (hplane : (b - a) ⨯₃ (c - b) ⬝ᵥ (x - a) = 0) :
    ∃ α β γ : K, α + β + γ = 1 ∧ x = α • a + β • b + γ • c := by
  set n := (b - a) ⨯₃ (c - b) with hndef
  have hnn : n ⬝ᵥ n ≠ 0 := fun h ↦ hn (dotProduct_self_eq_zero.1 h)
  have hexpand := cross_expand (b - a) (c - b) (x - a)
  rw [← hndef, hplane, zero_smul, add_zero] at hexpand
  set s := n ⬝ᵥ (x - a) ⨯₃ (c - b)
  set t := n ⬝ᵥ (b - a) ⨯₃ (x - a)
  have hx : x - a = (s / (n ⬝ᵥ n)) • (b - a) + (t / (n ⬝ᵥ n)) • (c - b) := by
    rw [← smul_right_injective _ hnn |>.eq_iff, hexpand, smul_add, smul_smul, smul_smul,
      mul_div_cancel₀ _ hnn, mul_div_cancel₀ _ hnn]
  refine ⟨1 - s / (n ⬝ᵥ n), s / (n ⬝ᵥ n) - t / (n ⬝ᵥ n), t / (n ⬝ᵥ n), by ring, ?_⟩
  rw [sub_eq_iff_eq_add] at hx
  rw [hx]
  module

/-- The weight of a vertex is positive if the point is on its side of the opposite edge. -/
theorem weight_pos {α β γ : K} (hsum : α + β + γ = 1) (hg : g ⬝ᵥ a = g ⬝ᵥ b)
    (hside : 0 < (g ⬝ᵥ c - g ⬝ᵥ a) * (g ⬝ᵥ (α • a + β • b + γ • c) - g ⬝ᵥ a)) : 0 < γ := by
  have hweight : g ⬝ᵥ (α • a + β • b + γ • c) - g ⬝ᵥ a = γ * (g ⬝ᵥ c - g ⬝ᵥ a) := by
    rw [dotProduct_add, dotProduct_add, dotProduct_smul, dotProduct_smul, dotProduct_smul, ← hg,
      smul_eq_mul, smul_eq_mul, smul_eq_mul]
    linear_combination (g ⬝ᵥ a) * hsum
  rw [hweight, mul_left_comm] at hside
  exact pos_of_mul_pos_left hside (mul_self_nonneg _)

/-- **A point on the inner side of every edge** lies in the triangle. -/
theorem mem_triangle_of_sides (hn : (b - a) ⨯₃ (c - b) ≠ 0)
    (hplane : (b - a) ⨯₃ (c - b) ⬝ᵥ (x - a) = 0) (hg₁ : g₁ ⬝ᵥ (b - a) = 0) (hg₂ : g₂ ⬝ᵥ (c - b) = 0)
    (hg₃ : g₃ ⬝ᵥ (a - c) = 0) (hside₁ : 0 < (g₁ ⬝ᵥ c - g₁ ⬝ᵥ a) * (g₁ ⬝ᵥ x - g₁ ⬝ᵥ a))
    (hside₂ : 0 < (g₂ ⬝ᵥ a - g₂ ⬝ᵥ b) * (g₂ ⬝ᵥ x - g₂ ⬝ᵥ b))
    (hside₃ : 0 < (g₃ ⬝ᵥ b - g₃ ⬝ᵥ c) * (g₃ ⬝ᵥ x - g₃ ⬝ᵥ c)) : x ∈ triangle a b c := by
  obtain ⟨α, β, γ, hsum, rfl⟩ := exists_combination hn hplane
  rw [dotProduct_sub, sub_eq_zero] at hg₁ hg₂ hg₃
  have hγ : 0 < γ := weight_pos hsum hg₁.symm hside₁
  have hα : 0 < α := by
    refine weight_pos (a := b) (b := c) (c := a) ((add_rotate α β γ).symm.trans hsum) hg₂.symm ?_
    rwa [← add_rotate (α • a)]
  have hβ : 0 < β := by
    refine weight_pos (a := c) (b := a) (c := b) ((add_rotate γ α β).trans hsum) hg₃.symm ?_
    rwa [add_rotate (γ • c)]
  exact combination_mem_triangle hα.le hβ.le hγ.le hsum
