import OpenHRP.Foundations.CycleEdges
import OpenHRP.Model.Link
import Mathlib.Data.List.GetD

/-!
# Cutting a polygon into triangles

`Triangulator` clips ears: it goes through the corners of the work polygon, takes out the first one
that is flat, or convex with no other vertex in its ear, and starts again. A convex corner gives a
triangle, a flat one is dropped, and it stops when no corner can be taken out.

Whatever the two tests answer, the edges of the triangles, of the dropped corners and of what is
left are those of the polygon and diagonals in both directions (`triangulate_conserves`).
-/

open Matrix

namespace OpenHRP.Triangulator

inductive Convexity
  | flat
  | convex
  | concave
  deriving DecidableEq

/-- The tests of the corner at a place of the work polygon. -/
structure EarTests where
  calcConvexity : List ℕ → ℕ → Convexity
  checkIfEarContainsOtherVertices : List ℕ → ℕ → Bool

/-- The state of the loop. The corners that were dropped as flat are not kept by the program. -/
structure Triangulation where
  numTriangles : ℕ
  triangles : List ℕ
  workPolygon : List ℕ
  dropped : List (ℕ × ℕ × ℕ)
  deriving DecidableEq

/-- The vertices before, at and after a place of the work polygon. -/
def corner (workPolygon : List ℕ) (i : ℕ) : ℕ × ℕ × ℕ :=
  let n := workPolygon.length
  (workPolygon.getD ((i + n - 1) % n) 0, workPolygon.getD i 0, workPolygon.getD ((i + 1) % n) 0)

/-- The first corner that can be taken out, and whether it gives a triangle. -/
def findTarget (tests : EarTests) (workPolygon : List ℕ) : Option (ℕ × Bool) :=
  (List.range workPolygon.length).findSome? fun i ↦
    match tests.calcConvexity workPolygon i with
    | .flat => some (i, false)
    | .convex =>
      if tests.checkIfEarContainsOtherVertices workPolygon i then none else some (i, true)
    | .concave => none

namespace Triangulation

/-- The triangle at a corner is written. -/
def pushTriangle (s : Triangulation) (t : ℕ × ℕ × ℕ) : Triangulation :=
  { s with numTriangles := s.numTriangles + 1, triangles := s.triangles ++ [t.1, t.2.1, t.2.2] }

/-- A corner is taken out of the work polygon. -/
def clip (s : Triangulation) (target : ℕ) (isTriangle : Bool) : Triangulation :=
  let t := corner s.workPolygon target
  let s' := if isTriangle then s.pushTriangle t else { s with dropped := s.dropped ++ [t] }
  { s' with workPolygon := s.workPolygon.eraseIdx target }

end Triangulation

/-- The loop of `apply`, of at most `fuel` turns. -/
def clipEars (tests : EarTests) : ℕ → Triangulation → Option Triangulation
  | 0, _ => none
  | fuel + 1, s =>
    if s.workPolygon.length < 3 then some s
    else
      match findTarget tests s.workPolygon with
      | none => some s
      | some (target, isTriangle) => clipEars tests fuel (s.clip target isTriangle)

/-- `apply` on a polygon of `numOrgVertices` vertices. Only the loop uses the work polygon. -/
def triangulate (tests : EarTests) (numOrgVertices : ℕ) : Option Triangulation :=
  if numOrgVertices < 3 then some ⟨0, [], [], []⟩
  else if numOrgVertices = 3 then some ⟨1, [0, 1, 2], [], []⟩
  else clipEars tests (numOrgVertices + 1) ⟨0, [], List.range numOrgVertices, []⟩

section Geometry

variable {K : Type*} [Field K] [LinearOrder K] [CMath K]

/-- The vertex of a polygon at a local index. -/
def vertex (vertices : List (Vector3 K)) (polygon : List ℕ) (localIndex : ℕ) : Vector3 K :=
  vertices.getD (polygon.getD localIndex 0) 0

/-- The cyclic cross sum. -/
def cyclicCrossSum (vertices : List (Vector3 K)) (polygon : List ℕ) : Vector3 K :=
  let n := polygon.length
  let o := vertex vertices polygon 0
  ((List.range (n - 2)).map fun i ↦
    -- the loop starts from 1
    cross (vertex vertices polygon (i + 1) - o) (vertex vertices polygon ((i + 2) % n) - o)).sum

/-- `calcConvexity`. The quotient is not a number if the first two vertices coincide, and is then
not less than the tolerance. -/
def calcConvexity (vertices : List (Vector3 K)) (polygon workPolygon : List ℕ) (ear : ℕ) :
    Convexity :=
  let t := corner workPolygon ear
  let p0 := vertex vertices polygon t.1
  let a := vertex vertices polygon t.2.1 - p0
  let b := vertex vertices polygon t.2.2 - p0
  let ccs : Vector3 K := cross a b
  if a.norm ≠ 0 ∧ ccs.norm / a.norm + b.norm < 1 / 10 ^ 4 then .flat
  else if 0 < cyclicCrossSum vertices polygon ⬝ᵥ ccs then .convex
  else .concave

/-- `checkIfEarContainsOtherVertices`. -/
def checkIfEarContainsOtherVertices (vertices : List (Vector3 K)) (polygon workPolygon : List ℕ)
    (ear : ℕ) : Bool :=
  let n := workPolygon.length
  let ccs := cyclicCrossSum vertices polygon
  if n > 3 then
    let prev := (ear + n - 1) % n
    let next := (ear + 1) % n
    let a := vertex vertices polygon (workPolygon.getD prev 0)
    let b := vertex vertices polygon (workPolygon.getD ear 0)
    let c := vertex vertices polygon (workPolygon.getD next 0)
    (List.range n).any fun i ↦
      let p := vertex vertices polygon (workPolygon.getD i 0)
      i ≠ prev ∧ i ≠ ear ∧ i ≠ next ∧
        0 < cross (a - p) (b - p) ⬝ᵥ ccs ∧ 0 < cross (b - p) (c - p) ⬝ᵥ ccs ∧
        0 < cross (c - p) (a - p) ⬝ᵥ ccs
  else false

/-- The tests for a polygon. -/
def earTests (vertices : List (Vector3 K)) (polygon : List ℕ) : EarTests where
  calcConvexity := calcConvexity vertices polygon
  checkIfEarContainsOtherVertices := checkIfEarContainsOtherVertices vertices polygon

/-- `apply`. -/
def apply (vertices : List (Vector3 K)) (polygon : List ℕ) : Option Triangulation :=
  triangulate (earTests vertices polygon) polygon.length

end Geometry

/-! ### The triangles in the list -/

/-- The triangles of a list of indices, three for each. -/
def triples : List ℕ → List (ℕ × ℕ × ℕ)
  | a :: b :: c :: l => (a, b, c) :: triples l
  | _ => []

theorem triples_append {k : ℕ} : ∀ {l : List ℕ}, l.length = 3 * k → ∀ t : ℕ × ℕ × ℕ,
    triples (l ++ [t.1, t.2.1, t.2.2]) = triples l ++ [t] := by
  induction k with
  | zero =>
    intro l hl t
    obtain rfl := List.length_eq_zero_iff.1 hl
    rfl
  | succ k ih =>
    intro l hl t
    match l, hl with
    | a :: b :: c :: l, hl =>
      have hlen : l.length = 3 * k := by
        simp only [List.length_cons] at hl
        omega
      rw [List.cons_append, List.cons_append, List.cons_append, triples, ih hlen t, triples,
        List.cons_append]

theorem flatMap_triples {k : ℕ} : ∀ {l : List ℕ}, l.length = 3 * k →
    (triples l).flatMap (fun t ↦ [t.1, t.2.1, t.2.2]) = l := by
  induction k with
  | zero =>
    intro l hl
    obtain rfl := List.length_eq_zero_iff.1 hl
    rfl
  | succ k ih =>
    intro l hl
    match l, hl with
    | a :: b :: c :: l, hl =>
      have hlen : l.length = 3 * k := by
        simp only [List.length_cons] at hl
        omega
      rw [triples, List.flatMap_cons, ih hlen]
      rfl

/-- The indices of a triangle are distinct, and in the order of a polygon of `n` vertices. -/
def IsInCyclicOrder (n : ℕ) (t : ℕ × ℕ × ℕ) : Prop :=
  (t.1 < n ∧ t.2.1 < n ∧ t.2.2 < n) ∧
    (t.1 < t.2.1 ∧ t.2.1 < t.2.2 ∨ t.2.1 < t.2.2 ∧ t.2.2 < t.1 ∨ t.2.2 < t.1 ∧ t.1 < t.2.1)

/-- The edges of the triangles and of the dropped corners. -/
def Triangulation.edges (s : Triangulation) : List (ℕ × ℕ) :=
  (triples s.triangles).flatMap triangleEdges ++ s.dropped.flatMap triangleEdges

/-! ### Corners -/

section Corner

variable {w : List ℕ} {i n : ℕ}

theorem getElem?_eq_some_getD {k : ℕ} (h : k < w.length) : w[k]? = some (w.getD k 0) := by
  rw [List.getD_eq_getElem _ _ h, List.getElem?_eq_getElem h]

theorem getElem?_corner (hi : i < w.length) :
    w[(i + w.length - 1) % w.length]? = some (corner w i).1 ∧ w[i]? = some (corner w i).2.1 ∧
      w[(i + 1) % w.length]? = some (corner w i).2.2 :=
  ⟨getElem?_eq_some_getD (Nat.mod_lt _ (by omega)), getElem?_eq_some_getD hi,
    getElem?_eq_some_getD (Nat.mod_lt _ (by omega))⟩

/-- The vertices of a part of the polygon increase. -/
theorem getD_lt_getD (hw : w.Sublist (List.range n)) {j k : ℕ} (hjk : j < k) (hk : k < w.length) :
    w.getD j 0 < w.getD k 0 := by
  rw [List.getD_eq_getElem _ _ hk, List.getD_eq_getElem _ _ (hjk.trans hk)]
  exact List.pairwise_iff_getElem.1 (List.pairwise_lt_range.sublist hw) j k (hjk.trans hk) hk hjk

theorem getD_lt (hw : w.Sublist (List.range n)) {k : ℕ} (hk : k < w.length) : w.getD k 0 < n := by
  rw [List.getD_eq_getElem _ _ hk]
  exact List.mem_range.1 (hw.mem (List.getElem_mem hk))

theorem isInCyclicOrder_corner (hw : w.Sublist (List.range n)) (hlen : 3 ≤ w.length)
    (hi : i < w.length) : IsInCyclicOrder n (corner w i) := by
  refine ⟨⟨getD_lt hw (Nat.mod_lt _ (by omega)), getD_lt hw hi,
    getD_lt hw (Nat.mod_lt _ (by omega))⟩, ?_⟩
  -- the first and the last vertex have a neighbour at the other end
  rcases Nat.eq_zero_or_pos i with rfl | hpos
  · have hprev : (0 + w.length - 1) % w.length = w.length - 1 := by
      rw [Nat.zero_add, Nat.mod_eq_of_lt (by omega)]
    have hnext : (0 + 1) % w.length = 1 := Nat.mod_eq_of_lt (by omega)
    refine .inr (.inl ⟨?_, ?_⟩)
    · rw [corner, hnext]
      exact getD_lt_getD hw (by omega) (by omega)
    · rw [corner, hnext, hprev]
      exact getD_lt_getD hw (by omega) (by omega)
  · have hprev : (i + w.length - 1) % w.length = i - 1 := by
      rw [show i + w.length - 1 = i - 1 + w.length by omega, Nat.add_mod_right,
        Nat.mod_eq_of_lt (by omega)]
    have hbefore : w.getD (i - 1) 0 < w.getD i 0 := getD_lt_getD hw (by omega) hi
    rcases Nat.lt_or_ge (i + 1) w.length with hnext | hlast
    · refine .inl ⟨?_, ?_⟩
      · rw [corner, hprev]
        exact hbefore
      · rw [corner, Nat.mod_eq_of_lt hnext]
        exact getD_lt_getD hw (by omega) hnext
    · have hnext : (i + 1) % w.length = 0 := by
        rw [show i + 1 = w.length by omega, Nat.mod_self]
      refine .inr (.inr ⟨?_, ?_⟩)
      · rw [corner, hprev, hnext]
        exact getD_lt_getD hw (by omega) (by omega)
      · rw [corner, hprev]
        exact hbefore

end Corner

/-! ### The loop -/

theorem lt_of_findTarget {tests : EarTests} {w : List ℕ} {target : ℕ} {isTriangle : Bool}
    (h : findTarget tests w = some (target, isTriangle)) : target < w.length := by
  obtain ⟨i, hi, hsome⟩ := List.exists_of_findSome?_eq_some h
  have htarget : i = target := by
    rcases hconv : tests.calcConvexity w i with - | - | - <;> rw [hconv] at hsome <;>
      dsimp only at hsome
    · exact (Prod.mk.inj (Option.some.inj hsome)).1
    · split_ifs at hsome
      exact (Prod.mk.inj (Option.some.inj hsome)).1
    · exact absurd hsome (Option.some_ne_none _).symm
  exact htarget ▸ List.mem_range.1 hi

/-- What holds of the state of the loop on a polygon of `n` vertices. -/
structure Conserves (n : ℕ) (s : Triangulation) : Prop where
  sublist : s.workPolygon.Sublist (List.range n)
  two_le : 2 ≤ s.workPolygon.length
  count : s.numTriangles + s.dropped.length + s.workPolygon.length = n
  length : s.triangles.length = 3 * s.numTriangles
  cyclic : ∀ t ∈ triples s.triangles, IsInCyclicOrder n t
  balance : ∃ D, (s.edges ++ cycleEdges s.workPolygon).Perm
    (cycleEdges (List.range n) ++ bothWays D)
  clipped : 3 ≤ s.workPolygon.length →
    Clipped (cycleEdges (List.range n)) s.edges s.workPolygon
  closed : s.workPolygon.length < 3 →
    s.edges.Nodup ∧ ∃ D, s.edges.Perm (cycleEdges (List.range n) ++ bothWays D)

namespace Conserves

variable {n : ℕ} {s : Triangulation}

theorem start (hn : 3 ≤ n) : Conserves n ⟨0, [], List.range n, []⟩ where
  sublist := .refl _
  two_le := by rw [List.length_range]; omega
  count := by rw [List.length_range, List.length_nil, Nat.add_zero, Nat.zero_add]
  length := rfl
  cyclic t ht := absurd ht List.not_mem_nil
  balance := (Clipped.polygon List.nodup_range).perm
  clipped _ := .polygon List.nodup_range
  closed h := by rw [List.length_range] at h; omega

/-- The corner's edges come to the edges, for a triangle and for a flat corner. -/
theorem edges_clip (h : Conserves n s) (i : ℕ) (isTriangle : Bool) :
    (s.edges ++ triangleEdges (corner s.workPolygon i)).Perm (s.clip i isTriangle).edges := by
  cases isTriangle with
  | false =>
    refine .of_eq ?_
    rw [Triangulation.clip, Triangulation.edges, Triangulation.edges, if_neg Bool.false_ne_true,
      List.flatMap_append, List.flatMap_singleton, List.append_assoc]
  | true =>
    rw [Triangulation.clip, if_pos rfl, Triangulation.edges, Triangulation.edges]
    dsimp only [Triangulation.pushTriangle]
    rw [triples_append h.length, List.flatMap_append, List.flatMap_singleton, List.append_assoc,
      List.append_assoc]
    exact List.perm_append_comm.append_left _

theorem clip (h : Conserves n s) {i : ℕ} (isTriangle : Bool) (hlen : 3 ≤ s.workPolygon.length)
    (hi : i < s.workPolygon.length) : Conserves n (s.clip i isTriangle) := by
  obtain ⟨hy, hc, hx⟩ := getElem?_corner hi
  have hedges := h.edges_clip i isTriangle
  have hnodup : s.workPolygon.Nodup := List.nodup_range.sublist h.sublist
  have hwork : (s.clip i isTriangle).workPolygon = s.workPolygon.eraseIdx i := rfl
  have herase := List.length_eraseIdx_of_lt hi
  have hclipped : 4 ≤ s.workPolygon.length → Clipped (cycleEdges (List.range n))
      (s.clip i isTriangle).edges (s.clip i isTriangle).workPolygon := fun h4 ↦
    ((h.clipped hlen).eraseIdx hnodup h4 hy hc hx).congr hedges
  have hlast : s.workPolygon.length = 3 → _ := fun h3 ↦ (h.clipped hlen).eraseIdx_last h3 hy hc hx
  refine ⟨(List.eraseIdx_sublist _ _).trans h.sublist, ?_, ?_, ?_, ?_, ?_, ?_, ?_⟩
  · rw [hwork]
    omega
  · have hcount := h.count
    cases isTriangle with
    | false =>
      rw [Triangulation.clip, if_neg Bool.false_ne_true]
      dsimp only
      rw [List.length_append, List.length_singleton]
      omega
    | true =>
      rw [Triangulation.clip, if_pos rfl]
      dsimp only [Triangulation.pushTriangle]
      omega
  · have hlength := h.length
    cases isTriangle with
    | false => exact hlength
    | true =>
      rw [Triangulation.clip, if_pos rfl]
      dsimp only [Triangulation.pushTriangle]
      rw [List.length_append, hlength]
      rfl
  · cases isTriangle with
    | false => exact h.cyclic
    | true =>
      intro t ht
      rw [Triangulation.clip, if_pos rfl] at ht
      dsimp only [Triangulation.pushTriangle] at ht
      rw [triples_append h.length] at ht
      rcases List.mem_append.1 ht with ht | ht
      · exact h.cyclic t ht
      · exact List.mem_singleton.1 ht ▸ isInCyclicOrder_corner h.sublist hlen hi
  · rcases Nat.lt_or_ge s.workPolygon.length 4 with h3 | h4
    · obtain ⟨-, -, D, hD⟩ := hlast (by omega)
      exact ⟨D, (hedges.symm.append_right _).trans hD⟩
    · exact (hclipped h4).perm
  · intro h3
    rw [hwork] at h3
    exact hclipped (by omega)
  · intro h3
    rw [hwork] at h3
    obtain ⟨hnd, ⟨D, hD⟩, -⟩ := hlast (by omega)
    exact ⟨hedges.nodup_iff.1 hnd, D, hedges.symm.trans hD⟩

end Conserves

theorem exists_clipEars (tests : EarTests) {n fuel : ℕ} {s : Triangulation} (h : Conserves n s)
    (hfuel : s.workPolygon.length < fuel) :
    ∃ r, clipEars tests fuel s = some r ∧ Conserves n r := by
  induction fuel generalizing s with
  | zero => exact absurd hfuel (Nat.not_lt_zero _)
  | succ fuel ih =>
    rw [clipEars]
    rcases Nat.lt_or_ge s.workPolygon.length 3 with hlen | hlen
    · rw [if_pos hlen]
      exact ⟨s, rfl, h⟩
    · rw [if_neg (by omega)]
      rcases htarget : findTarget tests s.workPolygon with - | ⟨target, isTriangle⟩
      · exact ⟨s, rfl, h⟩
      · have hi := lt_of_findTarget htarget
        have herase : (s.clip target isTriangle).workPolygon.length = s.workPolygon.length - 1 :=
          List.length_eraseIdx_of_lt hi
        exact ih (h.clip isTriangle hlen hi) (by omega)

/-- It ends on every polygon, and the local indices are those of the polygon. -/
theorem exists_triangulate (tests : EarTests) (n : ℕ) :
    ∃ r, triangulate tests n = some r ∧ r.triangles.length = 3 * r.numTriangles ∧
      ∀ k ∈ r.triangles, k < n := by
  rw [triangulate]
  split_ifs with h1 h2
  · exact ⟨_, rfl, rfl, fun k hk ↦ absurd hk List.not_mem_nil⟩
  · subst h2
    exact ⟨_, rfl, rfl, by decide⟩
  · obtain ⟨r, hr, h⟩ := exists_clipEars tests (.start (by omega : 3 ≤ n))
      (List.length_range.trans_lt (Nat.lt_succ_self n))
    refine ⟨r, hr, h.length, fun k hk ↦ ?_⟩
    rw [← flatMap_triples h.length] at hk
    obtain ⟨t, ht, hmem⟩ := List.mem_flatMap.1 hk
    obtain ⟨⟨h1, h2, h3⟩, -⟩ := h.cyclic t ht
    simp only [List.mem_cons, List.not_mem_nil, or_false] at hmem
    rcases hmem with rfl | rfl | rfl
    · exact h1
    · exact h2
    · exact h3

/-- **Ear clipping conserves the polygon**, whatever the tests answer. -/
theorem triangulate_conserves (tests : EarTests) {n : ℕ} (hn : 3 ≤ n) :
    ∃ r, triangulate tests n = some r ∧ r.numTriangles ≤ n - 2 ∧
      r.triangles.length = 3 * r.numTriangles ∧
      (∀ t ∈ triples r.triangles, IsInCyclicOrder n t) ∧
      (∃ D, (r.edges ++ cycleEdges r.workPolygon).Perm
        (cycleEdges (List.range n) ++ bothWays D)) ∧
      (r.workPolygon.length < 3 →
        r.edges.Nodup ∧ ∃ D, r.edges.Perm (cycleEdges (List.range n) ++ bothWays D)) := by
  rw [triangulate, if_neg (by omega)]
  rcases Nat.eq_or_lt_of_le hn with rfl | hn
  · rw [if_pos rfl]
    have hedges : Triangulation.edges ⟨1, [0, 1, 2], [], []⟩ = [(0, 1), (1, 2), (2, 0)] := rfl
    refine ⟨_, rfl, le_refl 1, rfl, ?_, ⟨[], .refl _⟩, fun _ ↦ ⟨?_, [], .refl _⟩⟩
    · intro t ht
      obtain rfl : t = (0, 1, 2) := List.mem_singleton.1 ht
      exact ⟨by decide, .inl (by decide)⟩
    · rw [hedges]
      decide
  · rw [if_neg (by omega)]
    obtain ⟨r, hr, h⟩ := exists_clipEars tests (.start (by omega : 3 ≤ n))
      (List.length_range.trans_lt (Nat.lt_succ_self n))
    have hcount := h.count
    have htwo := h.two_le
    exact ⟨r, hr, by omega, h.length, h.cyclic, h.balance, h.closed⟩

/-- A square leaves two vertices, and its diagonal is used in both directions. -/
theorem triangulate_conserves_square :
    ∃ r, apply [![0, 0, 0], ![1, 0, 0], ![1, 1, 0], ![(0 : ℚ), 1, 0]] [0, 1, 2, 3] = some r ∧
      r.numTriangles = 2 ∧ (∀ t ∈ triples r.triangles, IsInCyclicOrder 4 t) ∧
      ∃ D, r.edges.Perm (cycleEdges (List.range 4) ++ bothWays D) := by
  obtain ⟨r, hr, -, -, hcyclic, -, hclosed⟩ := triangulate_conserves
    (earTests [![0, 0, 0], ![1, 0, 0], ![1, 1, 0], ![(0 : ℚ), 1, 0]] [0, 1, 2, 3])
    (show 3 ≤ 4 by decide)
  have hval : apply [![0, 0, 0], ![1, 0, 0], ![1, 1, 0], ![(0 : ℚ), 1, 0]] [0, 1, 2, 3] =
      some ⟨2, [3, 0, 1, 3, 1, 2], [2, 3], []⟩ := by decide +kernel
  obtain rfl := Option.some.inj (hr.symm.trans hval)
  exact ⟨_, hval, rfl, hcyclic, (hclosed (by decide)).2⟩

end OpenHRP.Triangulator
