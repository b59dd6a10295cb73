import OpenHRP.Collision.EdgeCrossings

/-!
# The overlap of two triangles

`tri_tri_overlap` counts the edges of two triangles that cross the other one. One edge gives one
intersection point; for two edges one of fifteen branches hands their ends and distances to
`find_collision_info`, which also decides by the normal vectors whether the contact is reported.

Whatever it reports, the points that it stores lie in both triangles (`mem_of_triTriOverlap`). This
holds for every square root and for all values of the variables that the program leaves unset.
-/

open Matrix

namespace OpenHRP.TriOverlap

variable {K : Type*}

/-! ### The collision data -/

/-- The kinds of contact. -/
inductive ContactType
  | FV
  | VF
  | EE
  deriving DecidableEq

/-- What the overlap test writes into a `collision_data`. -/
structure CollisionData (K : Type*) where
  numOfIPoints : ℤ
  iPoints : Fin 4 → Vector3 K
  nVector : Vector3 K
  depth : K
  n : Vector3 K
  m : Vector3 K
  cType : ContactType

/-- The values of the local variables that are not initialised. -/
structure Unset (K : Type*) where
  ip : Vector3 K
  ip1 : Vector3 K
  ip2 : Vector3 K
  dp : K

/-- The collision data and the intersection points found so far. -/
structure Contact (K : Type*) where
  colP : CollisionData K
  ip3 : Vector3 K
  ip4 : Vector3 K
  ip5 : Vector3 K

namespace Contact

/-- The kind of contact is noted before the collision info is looked for. -/
def setType (r : Contact K) (cType : ContactType) : Contact K :=
  { r with colP := { r.colP with cType := cType } }

/-- One edge crosses, at the intersection point `ip`. -/
def setPoint (r : Contact K) (ip nVector : Vector3 K) (depth : K) (cType : ContactType) :
    Contact K :=
  { r with colP := { r.colP with nVector := nVector, depth := depth, cType := cType }, ip3 := ip }

end Contact

/-- The points that have been found are in `S`. -/
def Contact.Within (S : Set (Vector3 K)) (r : Contact K) : Prop :=
  r.colP.numOfIPoints = 1 ∧ r.ip3 ∈ S ∨ r.colP.numOfIPoints = 2 ∧ r.ip3 ∈ S ∧ r.ip4 ∈ S

/-- If the contact is reported, its points are in `S`. -/
def ReportsWithin (S : Set (Vector3 K)) (x : Bool × Contact K) : Prop :=
  x.1 = true → x.2.Within S

theorem ReportsWithin.ite {S : Set (Vector3 K)} {c : Prop} [Decidable c] {x y : Bool × Contact K}
    (hx : c → ReportsWithin S x) (hy : ¬c → ReportsWithin S y) :
    ReportsWithin S (if c then x else y) := by
  split_ifs with h
  · exact hx h
  · exact hy h

variable [Field K]

/-- The end of `tri_tri_overlap`: the intersection points are moved back by `P1` and stored. -/
def Contact.store (P1 n1 m1 : Vector3 K) (r : Contact K) : CollisionData K :=
  let c := r.colP
  let iPoints :=
    if c.numOfIPoints = 1 then Function.update c.iPoints 0 (r.ip3 + P1)
    else if c.numOfIPoints = 2 then
      Function.update (Function.update c.iPoints 0 (r.ip3 + P1)) 1 (r.ip4 + P1)
    else if c.numOfIPoints = 3 then
      Function.update (Function.update (Function.update c.iPoints 0 (r.ip3 + P1)) 1 (r.ip4 + P1))
        2 (r.ip5 + P1)
    else if c.numOfIPoints = 4 then
      Function.update (Function.update (Function.update (Function.update c.iPoints 0 (r.ip3 + P1))
        1 (r.ip4 + P1)) 2 (r.ip5 + P1)) 3 (r.ip5 + P1)
    else c.iPoints
  { c with iPoints := iPoints, n := n1, m := m1 }

/-! ### The depth -/

/-- `find_foot`: the foot of the perpendicular from a point to a line. -/
def findFoot (ip pt1 pt2 : Vector3 K) : Vector3 K :=
  let pt := pt2 - pt1
  let p := pt ⬝ᵥ (ip - pt1) / pt ⬝ᵥ pt
  pt1 + p • pt

/-- `normalized()`. -/
def normalized [CMath K] (v : Vector3 K) : Vector3 K :=
  (Vector3.norm v)⁻¹ • v

variable [LinearOrder K]

/-- `calc_depth` between two points. -/
def calcDepth (ip1 ip2 n : Vector3 K) : K :=
  |(ip1 - ip2) ⬝ᵥ n|

/-- `calc_depth` at two intersection points, when the separating plane supports the penetrated
triangle. -/
def calcDepthOfVertices (ip1 ip2 pt1 pt2 pt3 n : Vector3 K) : K :=
  let d1 := |(ip1 - pt1) ⬝ᵥ n|
  let d2 := |(ip2 - pt2) ⬝ᵥ n|
  let d3 := |(ip1 - pt3) ⬝ᵥ n|
  let depth := if d1 < d2 then d2 else d1
  if d3 < depth then d3 else depth

/-- `calc_depth` to the edges of a triangle. -/
def calcDepthOfFeet (ip pt1 pt2 pt3 n : Vector3 K) : K :=
  let d1 := |(findFoot ip pt1 pt2 - ip) ⬝ᵥ n|
  let d2 := |(findFoot ip pt2 pt3 - ip) ⬝ᵥ n|
  let d3 := |(findFoot ip pt3 pt1 - ip) ⬝ᵥ n|
  let depth := if d1 < d2 then d1 else d2
  if d3 < depth then d3 else depth

/-- `calc_depth2`: the separating plane supports the penetrating triangle. -/
def calcDepth2 (ip1 ip2 pt1 pt2 pt3 n : Vector3 K) : K :=
  let depth1 := calcDepthOfFeet ip1 pt1 pt2 pt3 n
  let depth2 := calcDepthOfFeet ip2 pt1 pt2 pt3 n
  if depth1 < depth2 then depth2 else depth1

/-- `find_common_perpendicular`: whether the common perpendicular of two edges meets both of them,
and then the depth. -/
def findCommonPerpendicular (p1 p2 q1 q2 ip1 ip2 nVector : Vector3 K) (dp : K) : Bool × K :=
  let e := p2 - p1
  let f := q2 - q1
  let c11 := e ⬝ᵥ e
  let c12 := -(e ⬝ᵥ f)
  let c21 := -c12
  let c22 := -(f ⬝ᵥ f)
  let det := c11 * c22 - c12 * c21
  if |det| < 1 / 10 ^ 3 then (false, dp)
  else
    let g := q1 - p1
    let a := e ⬝ᵥ g
    let b := f ⬝ᵥ g
    let t1 := (c22 * a - c12 * b) / det
    let t2 := (-c21 * a + c11 * b) / det
    if t1 < 0 ∨ 1 < t1 ∨ t2 < 0 ∨ 1 < t2 then (false, dp)
    else (true, calcDepth ip1 ip2 nVector)

/-! ### The normal vector -/

/-- `get_normal_vector_test` for a contact of a vertex and a face. -/
def getNormalVectorTestVF (n1 m1 : Vector3 K) : Bool :=
  if 1 / 2 < n1 ⬝ᵥ m1 then false else true

section Normals

variable [CMath K]

/-- `get_normal_vector_test` for a contact of two edges: whether the triangles face each other, and
the normal vector. -/
def getNormalVectorTestEE (nVector ef0 ip iq v1 v2 n1 m1 va1 va2 vb1 vb2 : Vector3 K) :
    Bool × Vector3 K :=
  let epsLength : K := 1 / 10 ^ 3
  let epsTheta : K := 1 / 10
  if 0 < n1 ⬝ᵥ m1 then (false, nVector)
  else
    let eaLength := Vector3.norm (va1 - va2)
    let ebLength := Vector3.norm (vb1 - vb2)
    if eaLength < epsLength ∨ ebLength < epsLength then
      (true, if eaLength < ebLength then m1 else -n1)
    else
      let sv1 := v1 - ip
      let sv1Norm := Vector3.norm sv1
      let sv2 := v2 - iq
      let sv2Norm := Vector3.norm sv2
      if (epsLength < sv1Norm ∧ epsLength < sv2Norm) ∧ 0 < sv1 ⬝ᵥ sv2 / (sv1Norm * sv2Norm) then
        (false, nVector)
      else
        let ef := normalized ef0
        let theta1 := ef ⬝ᵥ n1 / Vector3.norm n1
        let theta2 := if epsLength < sv1Norm then ef ⬝ᵥ sv1 / sv1Norm else 0
        let theta3 := ef ⬝ᵥ m1 / Vector3.norm m1
        let theta4 := if epsLength < sv2Norm then ef ⬝ᵥ sv2 / sv2Norm else 0
        if sv1Norm < epsLength ∨ sv2Norm < epsLength then
          (true, if |theta1| < |theta3| then m1 else -n1)
        else if |theta2| < epsTheta ∧ |theta4| < epsTheta then
          -- the two triangles are coplanar
          (true, if |theta1| < |theta3| then m1 else -n1)
        else if 0 < theta2 * theta4 then (false, nVector)
        else
          let theta12 := if |theta1| < |theta2| then theta2 else -1 * theta1
          let theta34 := if |theta3| < |theta4| then -1 * theta4 else theta3
          let theta := if |theta12| < |theta34| then theta34 else theta12
          let nVector := if 0 < theta then ef else -ef
          if nVector ⬝ᵥ sv1 < 0 ∨ 0 < nVector ⬝ᵥ sv2 then (false, nVector) else (true, nVector)

/-! ### The collision info -/

/-- `find_collision_info` when a vertex penetrates a face. -/
def findCollisionInfoVF (u : Unset K) (p1 p2 p3 : Vector3 K) (mp0 mp1 mp2 : K)
    (q1 q2 q3 n1 m1 : Vector3 K) (r : Contact K) (pq : K) : Bool × Contact K :=
  let ip1 := findIntersectionPt u.ip1 p1 p2 mp0 mp1
  let ip2 := findIntersectionPt u.ip2 p3 p1 mp2 mp0
  if getNormalVectorTestVF m1 n1 = true then
    let nVector := pq • m1
    let depth := calcDepthOfVertices ip1 ip2 p2 p3 p1 nVector
    let dp := calcDepth2 ip1 ip2 q1 q2 q3 (-(pq • n1))
    let depth := if dp < depth then dp else depth
    (true,
      { r with
        colP := { r.colP with nVector := nVector, depth := depth, numOfIPoints := 2 }
        ip3 := ip1
        ip4 := ip2 })
  else (false, r)

/-- `find_collision_info` when two edges penetrate a face each other. -/
def findCollisionInfoEE (u : Unset K) (p1 p2 p3 : Vector3 K) (mp0 mp1 : K) (q1 q2 q3 : Vector3 K)
    (nq0 nq1 : K) (ef11 n1 m1 : Vector3 K) (r : Contact K) (testNormal : Bool) :
    Bool × Contact K :=
  let ip1 := findIntersectionPt u.ip1 q1 q2 nq0 nq1
  let ip2 := findIntersectionPt u.ip2 p1 p2 mp0 mp1
  let found (nVector : Vector3 K) (dp : K) : Contact K :=
    { r with
      colP := { r.colP with nVector := nVector, numOfIPoints := 2, depth := dp }
      ip3 := ip1
      ip4 := ip2 }
  if testNormal = false then (true, found r.colP.nVector u.dp)
  else
    let (applicable, nVector) :=
      getNormalVectorTestEE r.colP.nVector ef11 ip2 ip1 p3 q3 n1 m1 p1 p2 q1 q2
    if applicable = true then
      let (perpendicular, dp) := findCommonPerpendicular p1 p2 q1 q2 ip1 ip2 nVector u.dp
      if perpendicular = true then (true, found nVector dp)
      else (false, { r with colP := { r.colP with nVector := nVector } })
    else (false, { r with colP := { r.colP with nVector := nVector } })

/-! ### The overlap -/

namespace Triangles

variable (t : Triangles K) (u : Unset K) (n1 m1 : Vector3 K) (edf ede : Crossed) (r : Contact K)

/-- One edge crosses. The normal vectors `n1` and `m1` are normalized by now. -/
def overlapAtEdge : Contact K :=
  let r :=
    if edf.edge1 = true then
      r.setPoint (findIntersectionPt u.ip t.q1 t.q2 (t.nq 0) (t.nq 1)) (-n1) 0 .FV
    else if edf.edge2 = true then
      r.setPoint (findIntersectionPt u.ip t.q2 t.q3 (t.nq 1) (t.nq 2)) (-n1) 0 .FV
    else if edf.edge3 = true then
      r.setPoint (findIntersectionPt u.ip t.q3 t.q1 (t.nq 2) (t.nq 0)) (-n1) 0 .FV
    else if ede.edge1 = true then
      r.setPoint (findIntersectionPt u.ip t.p1 t.p2 (t.mp 0) (t.mp 1)) m1 0 .VF
    else if ede.edge2 = true then
      r.setPoint (findIntersectionPt u.ip t.p2 t.p3 (t.mp 1) (t.mp 2)) m1 0 .VF
    else if ede.edge3 = true then
      r.setPoint (findIntersectionPt u.ip t.p3 t.p1 (t.mp 2) (t.mp 0)) m1 0 .VF
    else r
  { r with colP := { r.colP with numOfIPoints := 1 } }

/-- Two edges cross. -/
def overlapAtEdges (nvc : Bool) : Bool × Contact K :=
  if edf.edge1 = true ∧ edf.edge2 = true then
    findCollisionInfoVF u t.q2 t.q1 t.q3 (t.nq 1) (t.nq 0) (t.nq 2) t.p1 t.p2 t.p3 m1 n1
      (r.setType .FV) (-1)
  else if edf.edge1 = true ∧ edf.edge3 = true then
    findCollisionInfoVF u t.q1 t.q2 t.q3 (t.nq 0) (t.nq 1) (t.nq 2) t.p1 t.p2 t.p3 m1 n1
      (r.setType .FV) (-1)
  else if ede.edge1 = true ∧ edf.edge1 = true then
    findCollisionInfoEE u t.p1 t.p2 t.p3 (t.mp 0) (t.mp 1) t.q1 t.q2 t.q3 (t.nq 0) (t.nq 1)
      t.ef11 n1 m1 (r.setType .EE) nvc
  else if ede.edge2 = true ∧ edf.edge1 = true then
    findCollisionInfoEE u t.p2 t.p3 t.p1 (t.mp 1) (t.mp 2) t.q1 t.q2 t.q3 (t.nq 0) (t.nq 1)
      t.ef21 n1 m1 (r.setType .EE) nvc
  else if ede.edge3 = true ∧ edf.edge1 = true then
    findCollisionInfoEE u t.p3 t.p1 t.p2 (t.mp 2) (t.mp 0) t.q1 t.q2 t.q3 (t.nq 0) (t.nq 1)
      t.ef31 n1 m1 (r.setType .EE) nvc
  else if edf.edge2 = true ∧ edf.edge3 = true then
    findCollisionInfoVF u t.q3 t.q2 t.q1 (t.nq 2) (t.nq 1) (t.nq 0) t.p1 t.p2 t.p3 m1 n1
      (r.setType .FV) (-1)
  else if ede.edge1 = true ∧ edf.edge2 = true then
    findCollisionInfoEE u t.p1 t.p2 t.p3 (t.mp 0) (t.mp 1) t.q2 t.q3 t.q1 (t.nq 1) (t.nq 2)
      t.ef12 n1 m1 (r.setType .EE) nvc
  else if ede.edge2 = true ∧ edf.edge2 = true then
    findCollisionInfoEE u t.p2 t.p3 t.p1 (t.mp 1) (t.mp 2) t.q2 t.q3 t.q1 (t.nq 1) (t.nq 2)
      t.ef22 n1 m1 (r.setType .EE) nvc
  else if ede.edge3 = true ∧ edf.edge2 = true then
    findCollisionInfoEE u t.p3 t.p1 t.p2 (t.mp 2) (t.mp 0) t.q2 t.q3 t.q1 (t.nq 1) (t.nq 2)
      t.ef32 n1 m1 (r.setType .EE) nvc
  else if ede.edge1 = true ∧ edf.edge3 = true then
    findCollisionInfoEE u t.p1 t.p2 t.p3 (t.mp 0) (t.mp 1) t.q3 t.q1 t.q2 (t.nq 2) (t.nq 0)
      t.ef13 n1 m1 (r.setType .EE) nvc
  else if ede.edge2 = true ∧ edf.edge3 = true then
    findCollisionInfoEE u t.p2 t.p3 t.p1 (t.mp 1) (t.mp 2) t.q3 t.q1 t.q2 (t.nq 2) (t.nq 0)
      t.ef23 n1 m1 (r.setType .EE) nvc
  else if ede.edge3 = true ∧ edf.edge3 = true then
    findCollisionInfoEE u t.p3 t.p1 t.p2 (t.mp 2) (t.mp 0) t.q3 t.q1 t.q2 (t.nq 2) (t.nq 0)
      t.ef33 n1 m1 (r.setType .EE) nvc
  else if ede.edge1 = true ∧ ede.edge2 = true then
    findCollisionInfoVF u t.p2 t.p1 t.p3 (t.mp 1) (t.mp 0) (t.mp 2) t.q1 t.q2 t.q3 n1 m1
      (r.setType .VF) 1
  else if ede.edge1 = true ∧ ede.edge3 = true then
    findCollisionInfoVF u t.p1 t.p2 t.p3 (t.mp 0) (t.mp 1) (t.mp 2) t.q1 t.q2 t.q3 n1 m1
      (r.setType .VF) 1
  else if ede.edge2 = true ∧ ede.edge3 = true then
    findCollisionInfoVF u t.p3 t.p2 t.p1 (t.mp 2) (t.mp 1) (t.mp 0) t.q1 t.q2 t.q3 n1 m1
      (r.setType .VF) 1
  else (true, r)

end Triangles

/-- `tri_tri_overlap`: whether it returns 1, and the collision data. The intersection points of `r`
are the variables `ip3`, `ip4` and `ip5` before they are set; `nvc` is `normalVectorCorrection`. -/
def triTriOverlap (u : Unset K) (P1 P2 P3 Q1 Q2 Q3 : Vector3 K) (r : Contact K) (nvc : Bool) :
    Bool × CollisionData K :=
  let t := Triangles.establish P1 P2 P3 Q1 Q2 Q3
  match t.findEdges with
  | none => (false, r.colP)
  | some (edf, ede) =>
    let num := edf.sum + ede.sum
    if num = 0 then (false, r.colP)
    else if 2 < num then (false, r.colP)
    else
      let n1 := normalized t.n1
      let m1 := normalized t.m1
      if num = 1 then (true, (t.overlapAtEdge u n1 m1 edf ede r).store P1 n1 m1)
      else
        match t.overlapAtEdges u n1 m1 edf ede r nvc with
        | (false, r) => (false, r.colP)
        | (true, r) => (true, r.store P1 n1 m1)

end Normals

/-! ### The points are in both triangles -/

/-- The fifteen branches are for all pairs of edges. -/
theorem exists_pair {edf ede : Crossed} (hnum : edf.sum + ede.sum = 2)
    (hff : ¬(edf.edge1 = true ∧ edf.edge2 = true) ∧ ¬(edf.edge1 = true ∧ edf.edge3 = true) ∧
      ¬(edf.edge2 = true ∧ edf.edge3 = true))
    (hee : ¬(ede.edge1 = true ∧ ede.edge2 = true) ∧ ¬(ede.edge1 = true ∧ ede.edge3 = true) ∧
      ¬(ede.edge2 = true ∧ ede.edge3 = true)) :
    (edf.edge1 = true ∨ edf.edge2 = true ∨ edf.edge3 = true) ∧
      (ede.edge1 = true ∨ ede.edge2 = true ∨ ede.edge3 = true) := by
  obtain ⟨a1, a2, a3⟩ := edf
  obtain ⟨b1, b2, b3⟩ := ede
  revert a1 a2 a3 b1 b2 b3
  decide

variable [IsStrictOrderedRing K] {S : Set (Vector3 K)} {u : Unset K}
  {p1 p2 p3 q1 q2 q3 ef11 n1 m1 : Vector3 K} {mp0 mp1 mp2 nq0 nq1 pq : K} {r : Contact K}

/-- Two edges at the vertex `p1` give the points. -/
theorem reportsWithin_findCollisionInfoVF (h₁ : Pierces S p1 p2 mp0 mp1)
    (h₂ : Pierces S p3 p1 mp2 mp0) :
    ReportsWithin S (findCollisionInfoVF u p1 p2 p3 mp0 mp1 mp2 q1 q2 q3 n1 m1 r pq) :=
  .ite (fun _ _ ↦ .inr ⟨rfl, h₁.findIntersectionPt_mem _, h₂.findIntersectionPt_mem _⟩)
    fun _ h ↦ Bool.noConfusion h

variable [CMath K]

/-- One edge of each triangle gives the points. -/
theorem reportsWithin_findCollisionInfoEE {testNormal : Bool} (h₁ : Pierces S p1 p2 mp0 mp1)
    (h₂ : Pierces S q1 q2 nq0 nq1) :
    ReportsWithin S
      (findCollisionInfoEE u p1 p2 p3 mp0 mp1 q1 q2 q3 nq0 nq1 ef11 n1 m1 r testNormal) := by
  have hmem := And.intro (h₂.findIntersectionPt_mem u.ip1) (h₁.findIntersectionPt_mem u.ip2)
  refine .ite (fun _ _ ↦ .inr ⟨rfl, hmem⟩) fun _ ↦ ?_
  refine .ite (fun _ ↦ .ite (fun _ _ ↦ .inr ⟨rfl, hmem⟩) fun _ h ↦ Bool.noConfusion h) ?_
  exact fun _ h ↦ Bool.noConfusion h

namespace Triangles

variable {t : Triangles K} {edf ede : Crossed}

omit [CMath K] in
/-- If one edge crosses, the branch for this edge finds a common point. -/
theorem within_overlapAtEdge (hf : Pierced t.common edf t.q1 t.q2 t.q3 t.nq)
    (he : Pierced t.common ede t.p1 t.p2 t.p3 t.mp) (hnum : edf.sum + ede.sum = 1) :
    (t.overlapAtEdge u n1 m1 edf ede r).Within t.common := by
  refine .inl ⟨rfl, ?_⟩
  rw [overlapAtEdge]
  dsimp only
  split_ifs with hf1 hf2 hf3 he1 he2 he3
  · exact (hf.edge1 hf1).findIntersectionPt_mem _
  · exact (hf.edge2 hf2).findIntersectionPt_mem _
  · exact (hf.edge3 hf3).findIntersectionPt_mem _
  · exact (he.edge1 he1).findIntersectionPt_mem _
  · exact (he.edge2 he2).findIntersectionPt_mem _
  · exact (he.edge3 he3).findIntersectionPt_mem _
  · simp_all [Crossed.sum]

/-- If two edges cross, the branch for these edges finds common points. -/
theorem reportsWithin_overlapAtEdges {nvc : Bool} (hf : Pierced t.common edf t.q1 t.q2 t.q3 t.nq)
    (he : Pierced t.common ede t.p1 t.p2 t.p3 t.mp) (hnum : edf.sum + ede.sum = 2) :
    ReportsWithin t.common (t.overlapAtEdges u n1 m1 edf ede r nvc) := by
  refine .ite (fun h ↦ reportsWithin_findCollisionInfoVF (hf.edge1 h.1).symm (hf.edge2 h.2).symm)
    fun hf12 ↦ ?_
  refine .ite (fun h ↦ reportsWithin_findCollisionInfoVF (hf.edge1 h.1) (hf.edge3 h.2))
    fun hf13 ↦ ?_
  refine .ite (fun h ↦ reportsWithin_findCollisionInfoEE (he.edge1 h.1) (hf.edge1 h.2)) fun h11 ↦ ?_
  refine .ite (fun h ↦ reportsWithin_findCollisionInfoEE (he.edge2 h.1) (hf.edge1 h.2)) fun h21 ↦ ?_
  refine .ite (fun h ↦ reportsWithin_findCollisionInfoEE (he.edge3 h.1) (hf.edge1 h.2)) fun h31 ↦ ?_
  refine .ite (fun h ↦ reportsWithin_findCollisionInfoVF (hf.edge2 h.1).symm (hf.edge3 h.2).symm)
    fun hf23 ↦ ?_
  refine .ite (fun h ↦ reportsWithin_findCollisionInfoEE (he.edge1 h.1) (hf.edge2 h.2)) fun h12 ↦ ?_
  refine .ite (fun h ↦ reportsWithin_findCollisionInfoEE (he.edge2 h.1) (hf.edge2 h.2)) fun h22 ↦ ?_
  refine .ite (fun h ↦ reportsWithin_findCollisionInfoEE (he.edge3 h.1) (hf.edge2 h.2)) fun h32 ↦ ?_
  refine .ite (fun h ↦ reportsWithin_findCollisionInfoEE (he.edge1 h.1) (hf.edge3 h.2)) fun h13 ↦ ?_
  refine .ite (fun h ↦ reportsWithin_findCollisionInfoEE (he.edge2 h.1) (hf.edge3 h.2)) fun h23 ↦ ?_
  refine .ite (fun h ↦ reportsWithin_findCollisionInfoEE (he.edge3 h.1) (hf.edge3 h.2)) fun h33 ↦ ?_
  refine .ite (fun h ↦ reportsWithin_findCollisionInfoVF (he.edge1 h.1).symm (he.edge2 h.2).symm)
    fun he12 ↦ ?_
  refine .ite (fun h ↦ reportsWithin_findCollisionInfoVF (he.edge1 h.1) (he.edge3 h.2))
    fun he13 ↦ ?_
  refine .ite (fun h ↦ reportsWithin_findCollisionInfoVF (he.edge2 h.1).symm (he.edge3 h.2).symm)
    fun he23 ↦ ?_
  -- no branch is left for two edges
  obtain ⟨h1 | h1 | h1, h2 | h2 | h2⟩ := exists_pair hnum ⟨hf12, hf13, hf23⟩ ⟨he12, he13, he23⟩
  · exact absurd ⟨h2, h1⟩ h11
  · exact absurd ⟨h2, h1⟩ h21
  · exact absurd ⟨h2, h1⟩ h31
  · exact absurd ⟨h2, h1⟩ h12
  · exact absurd ⟨h2, h1⟩ h22
  · exact absurd ⟨h2, h1⟩ h32
  · exact absurd ⟨h2, h1⟩ h13
  · exact absurd ⟨h2, h1⟩ h23
  · exact absurd ⟨h2, h1⟩ h33

end Triangles

omit [LinearOrder K] [IsStrictOrderedRing K] [CMath K] in
/-- What is stored are the points that have been found, moved. -/
theorem mem_store {T : Set (Vector3 K)} {P1 : Vector3 K} (h : r.Within S)
    (hmove : ∀ x ∈ S, x + P1 ∈ T) :
    (r.store P1 n1 m1).numOfIPoints ≤ 4 ∧
      ∀ i : Fin 4, i.val < (r.store P1 n1 m1).numOfIPoints → (r.store P1 n1 m1).iPoints i ∈ T := by
  rcases h with ⟨hnum, h3⟩ | ⟨hnum, h3, h4⟩
  · refine ⟨?_, fun i hi ↦ ?_⟩
    · show r.colP.numOfIPoints ≤ 4
      omega
    · replace hi : (i.val : ℤ) < r.colP.numOfIPoints := hi
      obtain rfl : i = 0 := Fin.ext (by rw [Fin.val_zero]; omega)
      simpa [Contact.store, hnum] using hmove _ h3
  · refine ⟨?_, fun i hi ↦ ?_⟩
    · show r.colP.numOfIPoints ≤ 4
      omega
    · replace hi : (i.val : ℤ) < r.colP.numOfIPoints := hi
      obtain rfl | rfl : i = 0 ∨ i = 1 := by omega
      · simpa [Contact.store, hnum] using hmove _ h3
      · simpa [Contact.store, hnum] using hmove _ h4

/-- **Only real contact points are reported**: if `tri_tri_overlap` returns 1, every point that it
stores lies in both closed triangles. -/
theorem mem_of_triTriOverlap {P1 P2 P3 Q1 Q2 Q3 : Vector3 K} {nvc : Bool}
    (h : (triTriOverlap u P1 P2 P3 Q1 Q2 Q3 r nvc).1 = true) :
    let c := (triTriOverlap u P1 P2 P3 Q1 Q2 Q3 r nvc).2
    c.numOfIPoints ≤ 4 ∧ ∀ i : Fin 4, i.val < c.numOfIPoints →
      c.iPoints i ∈ triangle P1 P2 P3 ∩ triangle Q1 Q2 Q3 := by
  set t := Triangles.establish P1 P2 P3 Q1 Q2 Q3 with ht
  have hmove : ∀ x ∈ t.common, x + P1 ∈ triangle P1 P2 P3 ∩ triangle Q1 Q2 Q3 :=
    fun x hx ↦ ⟨add_mem_triangle hx.1, add_mem_triangle hx.2⟩
  rw [triTriOverlap, ← ht] at h ⊢
  rcases hedges : t.findEdges with - | ⟨edf, ede⟩
  · rw [hedges] at h
    exact Bool.noConfusion h
  · obtain ⟨hf, he⟩ := Triangles.pierced_of_findEdges (sub_self P1) hedges
    rw [hedges] at h
    dsimp only at h ⊢
    split_ifs at h ⊢ with hnum0 hnum2 hnum1
    · exact mem_store (Triangles.within_overlapAtEdge hf he hnum1) hmove
    · have hwithin : ReportsWithin t.common
          (t.overlapAtEdges u (normalized t.n1) (normalized t.m1) edf ede r nvc) :=
        Triangles.reportsWithin_overlapAtEdges hf he (by omega)
      rcases hr : t.overlapAtEdges u (normalized t.n1) (normalized t.m1) edf ede r nvc with ⟨b, r'⟩
      rw [hr] at h hwithin
      cases b with
      | false => exact Bool.noConfusion h
      | true => exact mem_store (hwithin rfl) hmove

/-- A triangle stands on another one, and pierces it with two of its edges. -/
theorem mem_of_triTriOverlap_standing :
    let u : Unset ℚ := ⟨0, 0, 0, 0⟩
    let r : Contact ℚ := ⟨⟨0, fun _ ↦ 0, 0, 0, 0, 0, .FV⟩, 0, 0, 0⟩
    let c := (triTriOverlap u ![0, 0, 0] ![1, 0, 0] ![0, 1, 0] ![1 / 4, 1 / 4, -1] ![1 / 4, 0, 1]
      ![1 / 4, 1 / 2, 1] r true).2
    c.numOfIPoints ≤ 4 ∧ ∀ i : Fin 4, i.val < c.numOfIPoints →
      c.iPoints i ∈ triangle ![0, 0, 0] ![1, 0, 0] ![0, 1, 0] ∩
        triangle ![1 / 4, 1 / 4, -1] ![1 / 4, 0, 1] ![1 / 4, 1 / 2, 1] :=
  mem_of_triTriOverlap (by decide +kernel)

end OpenHRP.TriOverlap
