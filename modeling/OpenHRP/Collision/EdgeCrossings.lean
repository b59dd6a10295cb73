import OpenHRP.Foundations.TriangleSides
import OpenHRP.Model.Link

/-!
# The edges that cross the other triangle

`tri_tri_overlap` first looks for the edges of each of two triangles that cross the other one. The
signs of the distances to a plane tell which two edges of a triangle cross this plane
(`separability_test_by_face`); the triangle inside test tells whether the crossing is in the other
triangle, from the cross products of the edges.

Each of the six tests is given the vertices, the cross products and an end of its edge by hand. They
are the right ones: an edge that is found meets the other triangle where `find_intersection_pt` puts
the intersection point (`Triangles.pierced_of_findEdges`).
-/

open Matrix

namespace OpenHRP.TriOverlap

variable {K : Type*} [Field K] [LinearOrder K]

/-! ### The helpers -/

/-- What `separability_test_by_face` says of a triangle. -/
inductive FaceTest
  | notIntersect
  | edge1NotIntersect
  | edge2NotIntersect
  | edge3NotIntersect
  deriving DecidableEq

/-- `separability_test_by_face`, from the distances of the vertices to the plane. -/
def separabilityTestByFace (nm : Vector3 K) : FaceTest :=
  if nm 0 < 0 ∧ nm 1 < 0 ∧ nm 2 < 0 ∨ 0 < nm 0 ∧ 0 < nm 1 ∧ 0 < nm 2 then
    .notIntersect
  else if nm 0 < 0 ∧ nm 1 < 0 ∧ 0 < nm 2 ∨ 0 < nm 0 ∧ 0 < nm 1 ∧ nm 2 < 0 then
    .edge1NotIntersect
  else if nm 0 < 0 ∧ 0 < nm 1 ∧ 0 < nm 2 ∨ 0 < nm 0 ∧ nm 1 < 0 ∧ nm 2 < 0 then
    .edge2NotIntersect
  else if 0 < nm 0 ∧ nm 1 < 0 ∧ 0 < nm 2 ∨ nm 0 < 0 ∧ 0 < nm 1 ∧ nm 2 < 0 then
    .edge3NotIntersect
  else
    -- a vertex lies in the plane
    .notIntersect

/-- `triangle_inside_test`: whether `Q` is on the inner side of each edge, seen along the normal
vectors `ef1`, `ef2` and `ef3`. -/
def triangleInsideTest (ef1 ef2 ef3 P3 P1 P2 Q : Vector3 K) : Bool :=
  (ef1 ⬝ᵥ P1 < ef1 ⬝ᵥ P3 ∧ ef1 ⬝ᵥ P1 < ef1 ⬝ᵥ Q ∨ ef1 ⬝ᵥ P3 < ef1 ⬝ᵥ P1 ∧ ef1 ⬝ᵥ Q < ef1 ⬝ᵥ P1) ∧
    (ef2 ⬝ᵥ P2 < ef2 ⬝ᵥ P1 ∧ ef2 ⬝ᵥ P2 < ef2 ⬝ᵥ Q ∨
      ef2 ⬝ᵥ P1 < ef2 ⬝ᵥ P2 ∧ ef2 ⬝ᵥ Q < ef2 ⬝ᵥ P2) ∧
    (ef3 ⬝ᵥ P3 < ef3 ⬝ᵥ P2 ∧ ef3 ⬝ᵥ P3 < ef3 ⬝ᵥ Q ∨ ef3 ⬝ᵥ P2 < ef3 ⬝ᵥ P3 ∧ ef3 ⬝ᵥ Q < ef3 ⬝ᵥ P3)

/-- `find_intersection_pt`: without a change of sign the point stays as it is. -/
def findIntersectionPt (ipt x1 x2 : Vector3 K) (mn1 mn2 : K) : Vector3 K :=
  if mn1 = mn2 then ipt
  else if 0 < mn1 ∧ mn2 < 0 then (mn1 - mn2)⁻¹ • (-(mn2 • x1) + mn1 • x2)
  else if mn1 < 0 ∧ 0 < mn2 then (-mn1 + mn2)⁻¹ • (mn2 • x1 - mn1 • x2)
  else ipt

/-! ### The triangles -/

/-- The vertices, in coordinates in which `p1` is the origin. -/
structure Triangles (K : Type*) where
  p1 : Vector3 K
  p2 : Vector3 K
  p3 : Vector3 K
  q1 : Vector3 K
  q2 : Vector3 K
  q3 : Vector3 K

namespace Triangles

/-- The coordinates `tri_tri_overlap` works in. -/
def establish (P1 P2 P3 Q1 Q2 Q3 : Vector3 K) : Triangles K where
  p1 := P1 - P1
  p2 := P2 - P1
  p3 := P3 - P1
  q1 := Q1 - P1
  q2 := Q2 - P1
  q3 := Q3 - P1

variable (t : Triangles K)

def e1 : Vector3 K := t.p2 - t.p1

def e2 : Vector3 K := t.p3 - t.p2

def e3 : Vector3 K := t.p1 - t.p3

def f1 : Vector3 K := t.q2 - t.q1

def f2 : Vector3 K := t.q3 - t.q2

def f3 : Vector3 K := t.q1 - t.q3

def n1 : Vector3 K := cross t.e1 t.e2

def m1 : Vector3 K := cross t.f1 t.f2

/-- The distances of the second triangle to the plane of the first one. -/
def nq : Vector3 K := ![t.n1 ⬝ᵥ t.q1, t.n1 ⬝ᵥ t.q2, t.n1 ⬝ᵥ t.q3]

/-- The distances of the first triangle to the plane of the second one. -/
def mp : Vector3 K :=
  let mq := t.m1 ⬝ᵥ t.q1
  ![t.m1 ⬝ᵥ t.p1 - mq, t.m1 ⬝ᵥ t.p2 - mq, t.m1 ⬝ᵥ t.p3 - mq]

def ef11 : Vector3 K := cross t.e1 t.f1

def ef12 : Vector3 K := cross t.e1 t.f2

def ef13 : Vector3 K := cross t.e1 t.f3

def ef21 : Vector3 K := cross t.e2 t.f1

def ef22 : Vector3 K := cross t.e2 t.f2

def ef23 : Vector3 K := cross t.e2 t.f3

def ef31 : Vector3 K := cross t.e3 t.f1

def ef32 : Vector3 K := cross t.e3 t.f2

def ef33 : Vector3 K := cross t.e3 t.f3

end Triangles

/-! ### The tests -/

/-- For each edge of a triangle, whether it crosses the other triangle. -/
structure Crossed where
  edge1 : Bool
  edge2 : Bool
  edge3 : Bool
  deriving DecidableEq

namespace Crossed

/-- `NOT_INTERSECT` for all of them. -/
def clear : Crossed := ⟨false, false, false⟩

/-- The number of edges that cross. -/
def sum (c : Crossed) : ℕ := c.edge1.toNat + c.edge2.toNat + c.edge3.toNat

/-- The `switch` on what the test by face says: the results of the tests for the two edges that it
does not exclude. -/
def tested : FaceTest → Bool → Bool → Bool → Crossed
  | .notIntersect, _, _, _ => .clear
  | .edge1NotIntersect, _, test2, test3 => ⟨false, test2, test3⟩
  | .edge2NotIntersect, test1, _, test3 => ⟨test1, false, test3⟩
  | .edge3NotIntersect, test1, test2, _ => ⟨test1, test2, false⟩

variable {r : FaceTest} {test1 test2 test3 : Bool}

theorem tested_edge1 (h : (tested r test1 test2 test3).edge1 = true) :
    r ≠ .edge1NotIntersect ∧ test1 = true := by
  cases r <;> first | exact ⟨by decide, h⟩ | exact Bool.noConfusion h

theorem tested_edge2 (h : (tested r test1 test2 test3).edge2 = true) :
    r ≠ .edge2NotIntersect ∧ test2 = true := by
  cases r <;> first | exact ⟨by decide, h⟩ | exact Bool.noConfusion h

theorem tested_edge3 (h : (tested r test1 test2 test3).edge3 = true) :
    r ≠ .edge3NotIntersect ∧ test3 = true := by
  cases r <;> first | exact ⟨by decide, h⟩ | exact Bool.noConfusion h

end Crossed

namespace Triangles

variable (t : Triangles K)

/-- `edf1`, `edf2` and `edf3`: the edges of the second triangle. -/
def edf (triQ : FaceTest) : Crossed :=
  .tested triQ (triangleInsideTest t.ef11 t.ef21 t.ef31 t.p3 t.p1 t.p2 t.q1)
    (triangleInsideTest t.ef12 t.ef22 t.ef32 t.p3 t.p1 t.p2 t.q2)
    (triangleInsideTest t.ef13 t.ef23 t.ef33 t.p3 t.p1 t.p2 t.q3)

/-- `ede1`, `ede2` and `ede3`: the edges of the first triangle. -/
def ede (triP : FaceTest) : Crossed :=
  .tested triP (triangleInsideTest t.ef11 t.ef12 t.ef13 t.q3 t.q1 t.q2 t.p1)
    (triangleInsideTest t.ef21 t.ef22 t.ef23 t.q3 t.q1 t.q2 t.p2)
    (triangleInsideTest t.ef31 t.ef32 t.ef33 t.q3 t.q1 t.q2 t.p3)

/-- The tests of `tri_tri_overlap`, down to the count of the edges: the edges of the second triangle
and those of the first one that cross, `none` where the function returns 0. -/
def findEdges : Option (Crossed × Crossed) :=
  let triQ := separabilityTestByFace t.nq
  let triP := separabilityTestByFace t.mp
  if triQ = .notIntersect then none
  else if triP = .notIntersect then none
  else
    let edf := t.edf triQ
    let numOfEdges := edf.sum
    if numOfEdges = 3 then none
    else if numOfEdges < 2 then
      let ede := t.ede triP
      -- two edges of the first triangle cross the second one, whose edges are then given up
      let edf := if ede.sum = 2 then .clear else edf
      if numOfEdges = 0 ∧ ede.sum = 3 then none else some (edf, ede)
    else some (edf, .clear)

end Triangles

/-! ### Where an edge crosses -/

/-- A segment that crosses a plane, for the distances of its ends, at a point of `S`. -/
structure Pierces (S : Set (Vector3 K)) (x1 x2 : Vector3 K) (mn1 mn2 : K) : Prop where
  mul_neg : mn1 * mn2 < 0
  crossing_mem : crossing x1 x2 mn1 mn2 ∈ S

namespace Pierces

variable {S : Set (Vector3 K)} {x1 x2 : Vector3 K} {mn1 mn2 : K}

theorem symm (h : Pierces S x1 x2 mn1 mn2) : Pierces S x2 x1 mn2 mn1 :=
  ⟨mul_comm mn1 mn2 ▸ h.mul_neg, (crossing_symm x1 x2 mn1 mn2).symm ▸ h.crossing_mem⟩

variable [IsStrictOrderedRing K]

/-- The interpolation formula, in the order of either sign. -/
theorem findIntersectionPt_eq (ipt : Vector3 K) (h : mn1 * mn2 < 0) :
    findIntersectionPt ipt x1 x2 mn1 mn2 = crossing x1 x2 mn1 mn2 := by
  rw [findIntersectionPt, crossing]
  rcases mul_neg_iff.1 h with ⟨h₁, h₂⟩ | ⟨h₁, h₂⟩
  · rw [if_neg (h₂.trans h₁).ne', if_pos ⟨h₁, h₂⟩, neg_add_eq_sub]
  · rw [if_neg (h₁.trans h₂).ne, if_neg fun hsign ↦ hsign.1.not_gt h₁, if_pos ⟨h₁, h₂⟩,
      neg_add_eq_sub, ← neg_sub mn1 mn2, ← neg_sub (mn1 • x2), inv_neg, neg_smul_neg]

theorem findIntersectionPt_mem (h : Pierces S x1 x2 mn1 mn2) (ipt : Vector3 K) :
    findIntersectionPt ipt x1 x2 mn1 mn2 ∈ S := by
  rw [findIntersectionPt_eq ipt h.mul_neg]
  exact h.crossing_mem

end Pierces

section Tests

variable [IsStrictOrderedRing K] {ef1 ef2 ef3 P1 P2 P3 x1 x2 : Vector3 K} {mn1 mn2 : K}

/-- What a positive test says of a side of the triangle. -/
theorem side_pos {p q r : K} (h : q < p ∧ q < r ∨ p < q ∧ r < q) : 0 < (p - q) * (r - q) := by
  rcases h with ⟨hp, hr⟩ | ⟨hp, hr⟩
  · exact mul_pos (sub_pos.2 hp) (sub_pos.2 hr)
  · exact mul_pos_of_neg_of_neg (sub_neg.2 hp) (sub_neg.2 hr)

/-- **The triangle inside test** with vectors normal to the edges of the triangle and to a segment
that crosses its plane: the crossing lies in the triangle. -/
theorem crossing_mem_triangle (hmn : mn1 * mn2 < 0) (h₁ : (P2 - P1) ⨯₃ (P3 - P2) ⬝ᵥ (x1 - P1) = mn1)
    (h₂ : (P2 - P1) ⨯₃ (P3 - P2) ⬝ᵥ (x2 - P1) = mn2) (hedge1 : ef1 ⬝ᵥ (P2 - P1) = 0)
    (hedge2 : ef2 ⬝ᵥ (P3 - P2) = 0) (hedge3 : ef3 ⬝ᵥ (P1 - P3) = 0) (hseg1 : ef1 ⬝ᵥ (x2 - x1) = 0)
    (hseg2 : ef2 ⬝ᵥ (x2 - x1) = 0) (hseg3 : ef3 ⬝ᵥ (x2 - x1) = 0)
    (htest : triangleInsideTest ef1 ef2 ef3 P3 P1 P2 x1 = true) :
    crossing x1 x2 mn1 mn2 ∈ triangle P1 P2 P3 := by
  have hne : mn1 ≠ mn2 := fun he ↦ (mul_self_nonneg mn2).not_gt (he ▸ hmn)
  have hplane : (P2 - P1) ⨯₃ (P3 - P2) ≠ 0 := by
    intro h0
    rw [← h₁, h0, zero_dotProduct, zero_mul] at hmn
    exact hmn.false
  obtain ⟨hside1, hside2, hside3⟩ := of_decide_eq_true htest
  refine mem_triangle_of_sides hplane (dotProduct_crossing hne h₁ h₂) hedge1 hedge2 hedge3 ?_ ?_ ?_
  · rw [dotProduct_crossing_of_normal hne hseg1]
    exact side_pos hside1
  · rw [dotProduct_crossing_of_normal hne hseg2]
    exact side_pos hside2
  · rw [dotProduct_crossing_of_normal hne hseg3]
    exact side_pos hside3

variable {nm : Vector3 K}

/-- The first edge crosses the plane unless the test excludes it. -/
theorem mul_neg_edge1 (h : separabilityTestByFace nm ≠ .notIntersect)
    (h₁ : separabilityTestByFace nm ≠ .edge1NotIntersect) : nm 0 * nm 1 < 0 := by
  rw [separabilityTestByFace] at h h₁
  rw [mul_neg_iff]
  split_ifs at h h₁ <;> tauto

/-- The second edge crosses the plane unless the test excludes it. -/
theorem mul_neg_edge2 (h : separabilityTestByFace nm ≠ .notIntersect)
    (h₂ : separabilityTestByFace nm ≠ .edge2NotIntersect) : nm 1 * nm 2 < 0 := by
  rw [separabilityTestByFace] at h h₂
  rw [mul_neg_iff]
  split_ifs at h h₂ <;> tauto

/-- The third edge crosses the plane unless the test excludes it. -/
theorem mul_neg_edge3 (h : separabilityTestByFace nm ≠ .notIntersect)
    (h₃ : separabilityTestByFace nm ≠ .edge3NotIntersect) : nm 2 * nm 0 < 0 := by
  rw [separabilityTestByFace] at h h₃
  rw [mul_neg_iff]
  split_ifs at h h₃ <;> tauto

end Tests

/-- Each edge of a triangle that is marked crosses the other triangle in `S`, for the distances of
the vertices to its plane. -/
structure Pierced (S : Set (Vector3 K)) (c : Crossed) (x1 x2 x3 mn : Vector3 K) : Prop where
  edge1 : c.edge1 = true → Pierces S x1 x2 (mn 0) (mn 1)
  edge2 : c.edge2 = true → Pierces S x2 x3 (mn 1) (mn 2)
  edge3 : c.edge3 = true → Pierces S x3 x1 (mn 2) (mn 0)

theorem pierced_clear {S : Set (Vector3 K)} {x1 x2 x3 mn : Vector3 K} :
    Pierced S .clear x1 x2 x3 mn :=
  ⟨Bool.noConfusion, Bool.noConfusion, Bool.noConfusion⟩

namespace Triangles

/-- The points of both triangles. -/
def common (t : Triangles K) : Set (Vector3 K) :=
  triangle t.p1 t.p2 t.p3 ∩ triangle t.q1 t.q2 t.q3

variable [IsStrictOrderedRing K] {t : Triangles K}

/-- An edge of the second triangle that passes the test. -/
theorem pierces_f (hp : t.p1 = 0) {x1 x2 : Vector3 K}
    (hedge : segment K x1 x2 ⊆ triangle t.q1 t.q2 t.q3) (hmn : t.n1 ⬝ᵥ x1 * t.n1 ⬝ᵥ x2 < 0)
    (htest : triangleInsideTest (t.e1 ⨯₃ (x2 - x1)) (t.e2 ⨯₃ (x2 - x1)) (t.e3 ⨯₃ (x2 - x1))
      t.p3 t.p1 t.p2 x1 = true) : Pierces t.common x1 x2 (t.n1 ⬝ᵥ x1) (t.n1 ⬝ᵥ x2) := by
  have hdist : ∀ x, t.n1 ⬝ᵥ (x - t.p1) = t.n1 ⬝ᵥ x := fun x ↦ by rw [hp, sub_zero]
  refine ⟨hmn, ?_, hedge (crossing_mem_segment hmn)⟩
  exact crossing_mem_triangle hmn (hdist x1) (hdist x2) (cross_dotProduct_left _ _)
    (cross_dotProduct_left _ _) (cross_dotProduct_left _ _) (cross_dotProduct_right _ _)
    (cross_dotProduct_right _ _) (cross_dotProduct_right _ _) htest

/-- An edge of the first triangle that passes the test. -/
theorem pierces_e {x1 x2 : Vector3 K} (hedge : segment K x1 x2 ⊆ triangle t.p1 t.p2 t.p3)
    (hmn : (t.m1 ⬝ᵥ x1 - t.m1 ⬝ᵥ t.q1) * (t.m1 ⬝ᵥ x2 - t.m1 ⬝ᵥ t.q1) < 0)
    (htest : triangleInsideTest ((x2 - x1) ⨯₃ t.f1) ((x2 - x1) ⨯₃ t.f2) ((x2 - x1) ⨯₃ t.f3)
      t.q3 t.q1 t.q2 x1 = true) :
    Pierces t.common x1 x2 (t.m1 ⬝ᵥ x1 - t.m1 ⬝ᵥ t.q1) (t.m1 ⬝ᵥ x2 - t.m1 ⬝ᵥ t.q1) := by
  refine ⟨hmn, hedge (crossing_mem_segment hmn), ?_⟩
  exact crossing_mem_triangle hmn (dotProduct_sub _ _ _) (dotProduct_sub _ _ _)
    (cross_dotProduct_right _ _) (cross_dotProduct_right _ _) (cross_dotProduct_right _ _)
    (cross_dotProduct_left _ _) (cross_dotProduct_left _ _) (cross_dotProduct_left _ _) htest

/-- The edges of the second triangle that the tests mark cross the first one. -/
theorem pierced_edf (hp : t.p1 = 0) (hQ : separabilityTestByFace t.nq ≠ .notIntersect) :
    Pierced t.common (t.edf (separabilityTestByFace t.nq)) t.q1 t.q2 t.q3 t.nq := by
  refine ⟨fun h ↦ ?_, fun h ↦ ?_, fun h ↦ ?_⟩
  · obtain ⟨hne, htest⟩ := Crossed.tested_edge1 h
    exact pierces_f hp (segment_subset_convexHull (by simp) (by simp)) (mul_neg_edge1 hQ hne) htest
  · obtain ⟨hne, htest⟩ := Crossed.tested_edge2 h
    exact pierces_f hp (segment_subset_convexHull (by simp) (by simp)) (mul_neg_edge2 hQ hne) htest
  · obtain ⟨hne, htest⟩ := Crossed.tested_edge3 h
    exact pierces_f hp (segment_subset_convexHull (by simp) (by simp)) (mul_neg_edge3 hQ hne) htest

/-- The edges of the first triangle that the tests mark cross the second one. -/
theorem pierced_ede (hP : separabilityTestByFace t.mp ≠ .notIntersect) :
    Pierced t.common (t.ede (separabilityTestByFace t.mp)) t.p1 t.p2 t.p3 t.mp := by
  refine ⟨fun h ↦ ?_, fun h ↦ ?_, fun h ↦ ?_⟩
  · obtain ⟨hne, htest⟩ := Crossed.tested_edge1 h
    exact pierces_e (segment_subset_convexHull (by simp) (by simp)) (mul_neg_edge1 hP hne) htest
  · obtain ⟨hne, htest⟩ := Crossed.tested_edge2 h
    exact pierces_e (segment_subset_convexHull (by simp) (by simp)) (mul_neg_edge2 hP hne) htest
  · obtain ⟨hne, htest⟩ := Crossed.tested_edge3 h
    exact pierces_e (segment_subset_convexHull (by simp) (by simp)) (mul_neg_edge3 hP hne) htest

/-- **The tests find real crossings**: also after edges have been given up, every edge that is
marked meets the other triangle. -/
theorem pierced_of_findEdges (hp : t.p1 = 0) {edf ede : Crossed}
    (h : t.findEdges = some (edf, ede)) :
    Pierced t.common edf t.q1 t.q2 t.q3 t.nq ∧ Pierced t.common ede t.p1 t.p2 t.p3 t.mp := by
  rw [findEdges] at h
  dsimp only at h
  split_ifs at h with hQ hP
  all_goals obtain ⟨rfl, rfl⟩ := Prod.mk.inj (Option.some.inj h)
  · exact ⟨pierced_clear, pierced_ede hP⟩
  · exact ⟨pierced_edf hp hQ, pierced_ede hP⟩
  · exact ⟨pierced_edf hp hQ, pierced_clear⟩

end Triangles

end OpenHRP.TriOverlap
