import OpenHRP.Planner.RRTSoundness
import Mathlib.Algebra.Order.Archimedean.Basic

/-!
# The loop of an RRT extension ends

`RRT::connect` extends a tree for as long as it advances, without a count. With a mobility that
covers at a ratio of the way the same ratio of the distance (`Mobility.IsUniform`), an extension
that advances adds a node closer to the target by `eps` than the nearest node before it
(`exists_of_advances`). So the loop ends within as many steps as `eps` fits into the distance
(`connect_returns`).
-/

namespace OpenHRP.PathEngine

variable {C K : Type*} [Field K] [LinearOrder K]

/-- At a ratio of the way, the same ratio of the distance is covered. -/
def Mobility.IsUniform (m : Mobility C K) : Prop :=
  ∀ source target ratio, 0 ≤ ratio → ratio ≤ 1 →
    m.distance (m.interpolate source target ratio) target = (1 - ratio) * m.distance source target

namespace RRT

/-- An extension of `tree` towards `qNew` that advances. -/
def Advances (planner : PathPlanner C K) (tree : RoadmapPtr) (qNew : C) (reverse : Bool)
    (s s' : RRT C K) : Prop :=
  ∃ q, s.extend planner tree qNew reverse = (s', q, .advanced)

variable {planner : PathPlanner C K} {tree : RoadmapPtr} {qNew : C} {reverse : Bool}
  {s s' : RRT C K}

/-- An extension advances by a new node at the ratio `eps / min` of the way from the nearest one. -/
theorem extend_advanced (h : Advances planner tree qNew reverse s s') :
    ∃ minNode min,
      s.heap.findNearestNode planner.mobility.distance tree qNew = some (minNode, min) ∧
      s.eps < min ∧
      s' = s.extended tree (s.heap.grow tree minNode
        (planner.mobility.interpolate (s.heap.position minNode) qNew (s.eps / min)) reverse) := by
  obtain ⟨q, hext⟩ := h
  rw [extend] at hext
  split at hext
  · cases hext
  · next minNode min hnear =>
    refine ⟨minNode, min, hnear, ?_⟩
    dsimp only at hext
    generalize hq : (if s.eps < min then
      planner.mobility.interpolate (s.heap.position minNode) qNew (s.eps / min) else qNew) = q₁
      at hext
    have hadvanced : ∀ h, (s.extended tree h, q₁,
        if min ≤ s.eps then ExtendResult.reached else .advanced) = (s', q, .advanced) →
        s.eps < min ∧ s' = s.extended tree h := by
      intro h heq
      rcases le_or_gt min s.eps with hle | hlt
      · rw [if_pos hle] at heq
        cases heq
      · rw [if_neg (not_le.2 hlt)] at heq
        cases heq
        exact ⟨hlt, rfl⟩
    suffices hgrow : s.eps < min ∧
        s' = s.extended tree (s.heap.grow tree minNode q₁ reverse) by
      rwa [← hq, if_pos hgrow.1] at hgrow
    split at hext
    · cases hext
    · split at hext
      · next hrev =>
        subst hrev
        split at hext
        · exact hadvanced _ hext
        · cases hext
      · next hrev =>
        rw [Bool.not_eq_true] at hrev
        subst hrev
        split at hext
        · exact hadvanced _ hext
        · cases hext

variable [IsStrictOrderedRing K]

/-- The nodes of a tree are allocated. -/
def Allocated (tree : RoadmapPtr) (s : RRT C K) : Prop :=
  ∀ n ∈ (s.heap.roadmap tree).nodes, n < s.heap.size

omit [Field K] [LinearOrder K] [IsStrictOrderedRing K] in
theorem Allocated.grow (hs : Allocated tree s) (minNode : NodePtr) (q : C) :
    Allocated tree (s.extended tree (s.heap.grow tree minNode q reverse)) := by
  intro n hn
  simp only [extended, Heap.nodes_grow_self, Heap.size_grow, List.mem_append,
    List.mem_singleton] at hn ⊢
  rcases hn with hn | rfl
  · exact (hs n hn).trans (Nat.lt_succ_self _)
  · exact Nat.lt_succ_self _

/-- The step: the node that an extension adds is closer to the target by `eps`. -/
theorem exists_of_advances (hm : planner.mobility.IsUniform) (heps : 0 < s.eps)
    (hs : Allocated tree s) (h : Advances planner tree qNew reverse s s') :
    s'.eps = s.eps ∧ Allocated tree s' ∧ ∃ minNode min node,
      s.heap.findNearestNode planner.mobility.distance tree qNew = some (minNode, min) ∧
      (s'.heap.roadmap tree).nodes = (s.heap.roadmap tree).nodes ++ [node] ∧
      planner.mobility.distance (s'.heap.position node) qNew = min - s.eps := by
  obtain ⟨minNode, min, hnear, hlt, rfl⟩ := extend_advanced h
  have hpos : 0 < min := heps.trans hlt
  have hne : minNode ≠ s.heap.size := (hs minNode (Heap.findNearestNode_spec hnear).1).ne
  refine ⟨rfl, hs.grow _ _, minNode, min, s.heap.size, hnear, s.heap.nodes_grow_self, ?_⟩
  rw [extended, Heap.position_grow_self _ hne, hm _ _ _ (div_nonneg heps.le hpos.le)
    ((div_le_one hpos).2 hlt.le), ← (Heap.findNearestNode_spec hnear).2.1, sub_mul,
    div_mul_cancel₀ _ hpos.ne', one_mul]

/-- The states that a loop of extensions comes through keep `eps` and the nodes of the tree. -/
theorem Allocated.of_advances (hm : planner.mobility.IsUniform) (heps : 0 < s.eps)
    (hs : Allocated tree s) (h : Relation.ReflTransGen (Advances planner tree qNew reverse) s s') :
    s'.eps = s.eps ∧ Allocated tree s' := by
  induction h with
  | refl => exact ⟨rfl, hs⟩
  | tail _ hstep ih =>
    obtain ⟨heq, halloc, -⟩ := exists_of_advances hm (ih.1 ▸ heps) ih.2 hstep
    exact ⟨heq.trans ih.1, halloc⟩

/-- A nearest node within `steps` times `eps` is reached, or the tree trapped, in one step more. -/
theorem connect_returns (hm : planner.mobility.IsUniform) (heps : 0 < s.eps)
    (hs : Allocated tree s) (reverse : Bool) (steps : ℕ)
    (hd : ∀ minNode min, s.heap.findNearestNode planner.mobility.distance tree qNew =
      some (minNode, min) → min ≤ steps * s.eps) :
    ∃ s' r, r ≠ .advanced ∧ ∀ fuel, steps < fuel →
      s.connect planner fuel tree qNew reverse = .ok (s', r) := by
  induction steps generalizing s with
  | zero =>
    rcases hext : s.extend planner tree qNew reverse with ⟨s', q, r⟩
    have hr : r ≠ .advanced := by
      rintro rfl
      obtain ⟨minNode, min, hnear, hlt, -⟩ := extend_advanced ⟨q, hext⟩
      have := hd minNode min hnear
      rw [Nat.cast_zero, zero_mul] at this
      exact absurd (heps.trans hlt) (not_lt.2 this)
    refine ⟨s', r, hr, fun fuel hfuel ↦ ?_⟩
    obtain ⟨fuel, rfl⟩ : ∃ m, fuel = m + 1 := ⟨fuel - 1, by omega⟩
    rw [connect, hext]
    cases r <;> first | rfl | exact absurd rfl hr
  | succ steps ih =>
    rcases hext : s.extend planner tree qNew reverse with ⟨s₁, q, r⟩
    rcases eq_or_ne r .advanced with rfl | hr
    · obtain ⟨heq, halloc, minNode, min, node, hnear, hnodes, hdist⟩ :=
        exists_of_advances hm heps hs ⟨q, hext⟩
      -- the new node is one of those that the nearest one is chosen from
      have hd' : ∀ minNode' min', s₁.heap.findNearestNode planner.mobility.distance tree qNew =
          some (minNode', min') → min' ≤ steps * s₁.eps := by
        intro minNode' min' hnear'
        have hle := (Heap.findNearestNode_spec hnear').2.2 node (by rw [hnodes]; simp)
        have hmin := hd minNode min hnear
        rw [hdist] at hle
        rw [heq]
        push_cast at hmin
        linarith
      obtain ⟨s', r, hr, hrun⟩ := ih (heq ▸ heps) halloc hd'
      refine ⟨s', r, hr, fun fuel hfuel ↦ ?_⟩
      obtain ⟨fuel, rfl⟩ : ∃ m, fuel = m + 1 := ⟨fuel - 1, by omega⟩
      rw [connect, hext]
      exact hrun fuel (by omega)
    · refine ⟨s₁, r, hr, fun fuel hfuel ↦ ?_⟩
      obtain ⟨fuel, rfl⟩ : ∃ m, fuel = m + 1 := ⟨fuel - 1, by omega⟩
      rw [connect, hext]
      cases r <;> first | rfl | exact absurd rfl hr

/-- With a positive `eps`, the loop ends after finitely many steps. -/
theorem exists_connect_returns [Archimedean K] (hm : planner.mobility.IsUniform) (heps : 0 < s.eps)
    (hs : Allocated tree s) (qNew : C) (reverse : Bool) :
    ∃ N s' r, r ≠ .advanced ∧ ∀ fuel, N ≤ fuel →
      s.connect planner fuel tree qNew reverse = .ok (s', r) := by
  rcases hnear : s.heap.findNearestNode planner.mobility.distance tree qNew with _ | ⟨minNode, min⟩
  · obtain ⟨s', r, hr, hrun⟩ := connect_returns hm heps hs reverse 0
      (fun minNode min h ↦ by rw [hnear] at h; cases h)
    exact ⟨1, s', r, hr, hrun⟩
  · obtain ⟨steps, hsteps⟩ := Archimedean.arch min heps
    obtain ⟨s', r, hr, hrun⟩ := connect_returns hm heps hs reverse steps
      (fun minNode' min' h ↦ by
        rw [hnear] at h
        cases h
        rwa [nsmul_eq_mul] at hsteps)
    exact ⟨steps + 1, s', r, hr, hrun⟩

end RRT

end OpenHRP.PathEngine
