import Mathlib.Analysis.SpecialFunctions.Complex.Arg
import OpenHRP.Foundations.CyclicMarks
import OpenHRP.Model.RealMath

/-!
# The part of a triangle in a circle

For the contacts of a sphere with a mesh, `calculateCentroidIntersection` computes the area and the
centroid of the part of a triangle that lies in a circle about the origin. It lists the vertices,
each followed by the points where the circle cuts the edge that starts there, and walks around this
list from one point in the circle to the next one: two neighbours make a triangle with the origin,
two points with others in between make a sector.

The areas are signed, so the vertices have to be listed counter-clockwise. `makeCCW` is there to see
to it. But instead of exchanging the first two vertices of a clockwise list, it overwrites the first
one by the second one (`isOrderFree_iff`).
-/

open Matrix

namespace OpenHRP.CircleTriangle

/-! ### The model -/

/-- Further functions of the C mathematics library. -/
class CTrig (K : Type*) extends CMath K where
  atan2 : K → K → K
  acos : K → K
  trunc : K → K
  /-- `TWOPI`. -/
  twoPi : K

noncomputable instance : CTrig ℝ where
  atan2 y x := Complex.arg ⟨x, y⟩
  acos := Real.arccos
  trunc x := if 0 ≤ x then ⌊x⌋ else ⌈x⌉
  twoPi := 2 * Real.pi

inductive PointType
  | vertex
  | inter

inductive FigType
  | tri
  | sector
  deriving DecidableEq

structure PointStruct (K : Type*) where
  x : K
  y : K
  angle : K
  type : PointType
  code : ℕ

structure FigStruct where
  type : FigType
  p1 : ℕ
  p2 : ℕ

/-- What is written to `cx`, `cy` and `A`. -/
structure Clip (K : Type*) where
  cx : K
  cy : K
  A : K

section Model

variable {K : Type*} [Field K] [LinearOrder K]

/-- `LOCAL_EPSILON`. -/
def localEpsilon : K :=
  1 / 10 ^ 4

/-- Zero is returned when the numbers of coordinates do not match. -/
def calculatePolygonArea (vx vy : List K) : K :=
  if vx.length = vy.length then
    ((List.range vx.length).map fun i ↦
      vx.getD i 0 * vy.getD ((i + 1) % vx.length) 0 -
        vy.getD i 0 * vx.getD ((i + 1) % vx.length) 0).sum / 2
  else 0

/-- `none` stands for the result zero, when the number of vertices is not that of a triangle. -/
def makeCCW (vx vy : List K) : Option (List K × List K) :=
  if vx.length = 3 ∧ vy.length = 3 then
    if calculatePolygonArea vx vy < 0 then some (vx.set 0 (vx.getD 1 0), vy.set 0 (vy.getD 1 0))
    else some (vx, vy)
  else none

variable [CTrig K]

def isInsideCircle (r x y : K) : Bool :=
  CMath.sqrt (x ^ 2 + y ^ 2) ≤ r

/-- The points where the circle cuts the edge, in the order of their distance from its start. -/
def calculateIntersection (radius x1 y1 x2 y2 : K) : List (K × K) :=
  if CMath.sqrt (x1 ^ 2 + y1 ^ 2) ≠ radius ∧ CMath.sqrt (x2 ^ 2 + y2 ^ 2) ≠ radius then
    let m := (y2 - y1) / (x2 - x1)
    let b := y1 - m * x1
    let D := if localEpsilon < |x2 - x1| then
        4 * m ^ 2 * b ^ 2 - 4 * (1 + m ^ 2) * (b ^ 2 - radius ^ 2)
      else radius ^ 2 - x1 ^ 2
    let numint := if D < 0 then 0 else if 0 < D then 2 else 1
    let test := fun i : ℕ ↦
      if localEpsilon < |x2 - x1| then
        let x_test := (-2 * m * b + (-1) ^ i * CMath.sqrt D) / (2 * (1 + m ^ 2))
        (x_test, m * x_test + b)
      else (x1, (-1) ^ i * CMath.sqrt D)
    let found := ((List.range numint).map test).filter fun p ↦
      min x1 x2 ≤ p.1 ∧ p.1 ≤ max x1 x2 ∧ min y1 y2 ≤ p.2 ∧ p.2 ≤ max y1 y2
    let t := fun p : K × K ↦
      CMath.sqrt ((p.1 - x1) ^ 2 + (p.2 - y1) ^ 2) / CMath.sqrt ((x2 - x1) ^ 2 + (y2 - y1) ^ 2)
    match found with
    | [p, q] => if t q < t p then [q, p] else [p, q]
    | found => found
  else []

/-- The angle of a recorded point. -/
def pointAngle (x y : K) : K :=
  if CTrig.atan2 y x < 0 then CTrig.atan2 y x + CTrig.twoPi else CTrig.atan2 y x

/-- What is recorded for the vertex `i`: the vertex, and the intersections of the edge to the next
vertex. -/
def recordEdge (radius : K) (i : ℕ) (x1 y1 x2 y2 : K) : List (PointStruct K) :=
  ⟨x1, y1, pointAngle x1 y1, .vertex, (isInsideCircle radius x1 y1).toNat⟩ ::
    (calculateIntersection radius x1 y1 x2 y2).map fun p ↦
      ⟨p.1, p.2, pointAngle p.1 p.2, .inter, i + 1⟩

/-- The vector `point`. -/
def recordPoints (radius : K) (vx vy : List K) : List (PointStruct K) :=
  (List.range vx.length).flatMap fun i ↦
    recordEdge radius i (vx.getD i 0) (vy.getD i 0) (vx.getD ((i + 1) % vx.length) 0)
      (vy.getD ((i + 1) % vx.length) 0)

def pointAt (point : List (PointStruct K)) (j : ℕ) : PointStruct K :=
  point.getD j ⟨0, 0, 0, .vertex, 0⟩

/-- Whether a recorded point is in the circle. -/
def codeAt (point : List (PointStruct K)) (j : ℕ) : Bool :=
  (pointAt point j).code ≠ 0

/-! #### The walk -/

/-- The index `j[0]`, where the walk started (`none` for `-1`), and the figures found. -/
structure WalkState where
  j : ℕ
  start : Option ℕ
  figure : List FigStruct

/-- A turn of the loop, before the test for the end; `none` when no intersection is detected. -/
def walkStep (code : ℕ → Bool) (n : ℕ) (w : WalkState) : Option WalkState :=
  let j := fun cont ↦ (w.j + cont) % n
  if code w.j then
    let start := some (w.start.getD w.j)
    if code (j 1) then some ⟨j 1, start, w.figure ++ [⟨.tri, w.j, j 1⟩]⟩
    else if code (j 2) then some ⟨j 2, start, w.figure ++ [⟨.sector, w.j, j 2⟩]⟩
    else if code (j 3) then some ⟨j 3, start, w.figure ++ [⟨.sector, w.j, j 3⟩]⟩
    else if code (j 4) then some ⟨j 4, start, w.figure ++ [⟨.sector, w.j, j 4⟩]⟩
    else none
  else some ⟨j 1, w.start, w.figure⟩

/-- The test that sets `finished`. -/
def WalkState.finished (w : WalkState) : Bool :=
  w.j = 0 ∧ w.start = none ∨ w.start = some w.j

/-- The loop, for so many turns at most: the outer `none` is a loop that has not ended then, the
inner one the error. -/
def walk (code : ℕ → Bool) (n : ℕ) : ℕ → WalkState → Option (Option (List FigStruct))
  | 0, _ => none
  | fuel + 1, w =>
    match walkStep code n w with
    | none => some none
    | some w => if w.finished then some (some w.figure) else walk code n fuel w

/-! #### The figures -/

/-- The part of a figure that is computed last, and its first point. -/
structure Piece (K : Type*) where
  area : K
  cx : K
  cy : K
  x : K
  y : K

def calculateSectorCentroid (radius th1 th2 : K) : K × K :=
  let th := if th2 < th1 then th2 - th1 + CTrig.twoPi else th2 - th1
  let g := if localEpsilon < |th| then 4 / 3 * radius / th * CMath.sin (th / 2)
    else 2 / 3 * radius
  let psi := if th2 < th1 then th1 + th2 + CTrig.twoPi else th1 + th2
  let phi := psi / 2 - CTrig.trunc (psi / 2 / CTrig.twoPi) * CTrig.twoPi
  (g * CMath.cos phi, g * CMath.sin phi)

/-- The area and the centroid of a figure from its two points. -/
def measure (radius : K) (type : FigType) (p q : PointStruct K) : Piece K :=
  match type with
  | .tri => ⟨calculatePolygonArea [0, p.x, q.x] [0, p.y, q.y], (0 + p.x + q.x) / 3,
      (0 + p.y + q.y) / 3, p.x, p.y⟩
  | .sector =>
    let th := if q.angle - p.angle < 0 then q.angle - p.angle + CTrig.twoPi else q.angle - p.angle
    let c := calculateSectorCentroid radius p.angle q.angle
    ⟨radius ^ 2 * th / 2, c.1, c.2, p.x, p.y⟩

/-- The sums over the figures. -/
def sumFigures (figure : List (Piece K)) : Clip K :=
  let sum_xA := (figure.map fun f ↦ f.cx * f.area).sum
  let sum_yA := (figure.map fun f ↦ f.cy * f.area).sum
  let sum_A := (figure.map fun f ↦ f.area).sum
  match figure with
  | [f] => if sum_A = 0 then ⟨f.x, f.y, sum_A⟩ else ⟨sum_xA / sum_A, sum_yA / sum_A, sum_A⟩
  | _ => ⟨sum_xA / sum_A, sum_yA / sum_A, sum_A⟩

/-- The sum of the angles under which the edges are seen; a point close to a vertex stops it. -/
def angleSum (x y : K) (vx vy : List K) : List ℕ → K → K
  | [], anglesum => anglesum
  | i :: rest, anglesum =>
    let v1 : Vector3 K := ![vx.getD i 0, vy.getD i 0, 0] - ![x, y, 0]
    let v2 : Vector3 K :=
      ![vx.getD ((i + 1) % vx.length) 0, vy.getD ((i + 1) % vy.length) 0, 0] - ![x, y, 0]
    let m1 := Vector3.norm v1
    let m2 := Vector3.norm v2
    if m1 * m2 ≤ localEpsilon then CTrig.twoPi
    else angleSum x y vx vy rest (anglesum + CTrig.acos (v1 ⬝ᵥ v2 / (m1 * m2)))

def isInsideTriangle (x y : K) (vx vy : List K) : Bool :=
  |CTrig.twoPi - angleSum x y vx vy [0, 1, 2] 0| < localEpsilon

/-- The returned number, and what is written to the arguments if anything is; `none` when the walk
does not end. -/
def calculateCentroidIntersection (radius : K) (vx vy : List K) : Option (ℕ × Option (Clip K)) :=
  match makeCCW vx vy with
  | none => some (0, none)
  | some (vx, vy) =>
    let point := recordPoints radius vx vy
    match walk (codeAt point) point.length (2 * point.length) ⟨0, none, []⟩ with
    | none => none
    | some none => some (0, none)
    | some (some []) =>
      some ((isInsideTriangle 0 0 vx vy).toNat, some ⟨0, 0, CTrig.twoPi * radius ^ 2⟩)
    | some (some figure) =>
      some (1, some (sumFigures (figure.map fun f ↦
        measure radius f.type (pointAt point f.p1) (pointAt point f.p2))))

end Model

/-! ### The walk -/

section Walk

variable {code : ℕ → Bool} {n : ℕ}

/-- The number, not reduced, of the next point in the circle. -/
def nextMark (code : ℕ → Bool) (n k : ℕ) : ℕ :=
  if code ((k + 1) % n) then k + 1
  else if code ((k + 2) % n) then k + 2
  else if code ((k + 3) % n) then k + 3
  else k + 4

/-- The figure that starts at the point with the number `k`. -/
def figureAt (code : ℕ → Bool) (n k : ℕ) : FigStruct :=
  ⟨if code ((k + 1) % n) then .tri else .sector, k % n, nextMark code n k % n⟩

/-- Among any four points that follow a point in the circle, one is in the circle. -/
def HasNearMarks (code : ℕ → Bool) (n : ℕ) : Prop :=
  ∀ k, code (k % n) = true → code ((k + 1) % n) = true ∨ code ((k + 2) % n) = true ∨
    code ((k + 3) % n) = true ∨ code ((k + 4) % n) = true

theorem isNextMark_nextMark (h : HasNearMarks code n) {k : ℕ} (hk : code (k % n) = true) :
    CyclicMarks.IsNextMark (fun k ↦ code (k % n)) k (nextMark code n k) := by
  have h' := h k hk
  rw [nextMark]
  split_ifs with h₁ h₂ h₃
  · exact ⟨Nat.lt_succ_self k, h₁, fun i hi hi' ↦ by omega⟩
  · refine ⟨by omega, h₂, fun i hi hi' ↦ ?_⟩
    obtain rfl : i = k + 1 := by omega
    exact h₁
  · refine ⟨by omega, h₃, fun i hi hi' ↦ ?_⟩
    obtain rfl | rfl : i = k + 1 ∨ i = k + 2 := by omega
    exacts [h₁, h₂]
  · refine ⟨by omega, ((h'.resolve_left h₁).resolve_left h₂).resolve_left h₃, fun i hi hi' ↦ ?_⟩
    obtain rfl | rfl | rfl : i = k + 1 ∨ i = k + 2 ∨ i = k + 3 := by omega
    exacts [h₁, h₂, h₃]

theorem walkStep_of_mark (h : HasNearMarks code n) {k : ℕ} (hk : code (k % n) = true)
    (start : Option ℕ) (figure : List FigStruct) :
    walkStep code n ⟨k % n, start, figure⟩ =
      some ⟨nextMark code n k % n, some (start.getD (k % n)), figure ++ [figureAt code n k]⟩ := by
  have h' := h k hk
  simp only [walkStep, Nat.mod_add_mod, figureAt, nextMark, hk, if_true]
  split_ifs with h₁ h₂ h₃ h₄
  · rfl
  · rfl
  · rfl
  · rfl
  · exact absurd h' (by simp [h₁, h₂, h₃, h₄])

theorem walkStep_of_not {k : ℕ} (hk : ¬code (k % n) = true) (start : Option ℕ)
    (figure : List FigStruct) :
    walkStep code n ⟨k % n, start, figure⟩ = some ⟨(k + 1) % n, start, figure⟩ := by
  simp only [walkStep, Nat.mod_add_mod, if_neg hk]

/-- From a point in the circle on, the walk visits the points in the circle up to its start. -/
theorem walk_of_mark (h : HasNearMarks code n) {s : ℕ} (hs : s < n) (hmark : code (s % n) = true)
    {fuel k : ℕ} {start : Option ℕ} {figure : List FigStruct} (hle : s ≤ k) (hlt : k < s + n)
    (hk : code (k % n) = true) (hstart : start.getD (k % n) = s) (hfuel : s + n - k ≤ fuel) :
    walk code n fuel ⟨k % n, start, figure⟩ = some (some (figure ++
      ((List.range' k (s + n - k)).filter fun k ↦ code (k % n)).map (figureAt code n))) := by
  induction fuel generalizing k start figure with
  | zero => omega
  | succ fuel ih =>
    have hnext := isNextMark_nextMark h hk
    have hlt' := hnext.lt
    have hle' : nextMark code n k ≤ s + n := by
      by_contra hgt
      exact hnext.between (s + n) hlt (not_le.1 hgt) (by rw [Nat.add_mod_right]; exact hmark)
    rw [walk, walkStep_of_mark h hk, hstart,
      CyclicMarks.filter_range'_of_isNextMark (C := fun k ↦ code (k % n)) hk hnext hle',
      List.map_cons]
    dsimp only
    obtain heq | hne := hle'.eq_or_lt
    · have hfin : nextMark code n k % n = s := by
        rw [heq, Nat.add_mod_right, Nat.mod_eq_of_lt hs]
      rw [if_pos (by simp [WalkState.finished, hfin]), heq, Nat.sub_self]
      rfl
    · have hfin := CyclicMarks.mod_ne_of_lt hs (hle.trans_lt hlt') hne
      rw [if_neg (by simp [WalkState.finished, Ne.symm hfin]),
        ih (by omega) hne hnext.mark rfl (by omega), List.append_assoc]
      rfl

/-- The walk from the first point on, as long as no point in the circle is found. -/
theorem walk_of_forall_not (h : HasNearMarks code n) {fuel k : ℕ} (hk : k < n)
    (hnot : ∀ i, i < k → ¬code (i % n) = true) (hfuel : 2 * n - k ≤ fuel) :
    walk code n fuel ⟨k % n, none, []⟩ = some (some
      (((List.range n).filter fun k ↦ code (k % n)).map (figureAt code n))) := by
  induction fuel generalizing k with
  | zero => omega
  | succ fuel ih =>
    have hrange : (List.range n).filter (fun k ↦ code (k % n)) =
        (List.range' k (n - k)).filter fun k ↦ code (k % n) := by
      rw [List.range_eq_range']
      exact CyclicMarks.filter_range'_of_forall_not_left (Nat.zero_le k) hk.le
        fun i _ hi ↦ hnot i hi
    by_cases hmark : code (k % n) = true
    · have hgetD : (none : Option ℕ).getD (k % n) = k := Nat.mod_eq_of_lt hk
      have htail : (List.range' k (k + n - k)).filter (fun k ↦ code (k % n)) =
          (List.range' k (n - k)).filter fun k ↦ code (k % n) := by
        refine CyclicMarks.filter_range'_of_forall_not_right hk.le (by omega) fun i hi hi' ↦ ?_
        rw [Nat.mod_eq_sub_mod hi]
        exact hnot (i - n) (by omega)
      rw [walk_of_mark h hk hmark le_rfl (by omega) hmark hgetD (by omega), hrange, htail]
      rfl
    · rw [walk, walkStep_of_not hmark]
      have hnot' : ∀ i, i < k + 1 → ¬code (i % n) = true := fun i hi ↦ by
        obtain hlt | rfl := Nat.lt_succ_iff_lt_or_eq.1 hi
        exacts [hnot i hlt, hmark]
      dsimp only
      obtain hlt | heq := (Nat.succ_le_of_lt hk).lt_or_eq
      · have hne : (k + 1) % n ≠ 0 := by
          rw [Nat.mod_eq_of_lt hlt]
          exact Nat.succ_ne_zero k
        rw [if_neg (by simp [WalkState.finished, hne]), ih hlt hnot' (by omega)]
      · -- back at the first point, with no figure
        have hnil : (List.range n).filter (fun k ↦ code (k % n)) = [] :=
          List.filter_eq_nil_iff.2 fun i hi ↦ hnot' i (by have := List.mem_range.1 hi; omega)
        have hzero : (k + 1) % n = 0 := by
          rw [show k + 1 = n from heq, Nat.mod_self]
        rw [if_pos (by simp [WalkState.finished, hzero]), hnil]
        rfl

/-- The walk ends, and has a figure for every point in the circle then. -/
theorem walk_eq (h : HasNearMarks code n) (hn : 0 < n) :
    walk code n (2 * n) ⟨0, none, []⟩ = some (some
      (((List.range n).filter fun k ↦ code (k % n)).map (figureAt code n))) := by
  have hwalk : walk code n (2 * n) ⟨0 % n, none, []⟩ = _ :=
    walk_of_forall_not h hn (fun i hi ↦ absurd hi (Nat.not_lt_zero i)) (Nat.sub_le ..)
  rw [Nat.zero_mod] at hwalk
  exact hwalk

end Walk

/-! ### The recorded points -/

section Points

variable {K : Type*} [Field K]

/-- The recorded point with the number `k`, not reduced. -/
def pointMod (point : List (PointStruct K)) (k : ℕ) : PointStruct K :=
  pointAt point (k % point.length)

theorem map_pointMod_range (point : List (PointStruct K)) :
    (List.range point.length).map (pointMod point) = point := by
  refine List.ext_getElem (by rw [List.length_map, List.length_range]) fun j hj hj' ↦ ?_
  rw [List.getElem_map, List.getElem_range, pointMod, Nat.mod_eq_of_lt hj', pointAt,
    List.getD_eq_getElem?_getD, List.getElem?_eq_getElem hj', Option.getD_some]

theorem periodic_pointMod (point : List (PointStruct K)) :
    Function.Periodic (pointMod point) point.length := fun k ↦ by
  rw [pointMod, Nat.add_mod_right, pointMod]

/-- The only points not in the circle are vertices, and there are three of them. -/
theorem hasNearMarks_of_countP_le {point : List (PointStruct K)}
    (hcount : point.countP (fun p ↦ p.code = 0) ≤ 3) :
    HasNearMarks (codeAt point) point.length := by
  intro k hk
  by_contra hno
  simp only [not_or] at hno
  obtain ⟨h₁, h₂, h₃, h₄⟩ := hno
  obtain hlt | hge := Nat.lt_or_ge 4 point.length
  · have hsub : (List.range' (k + 1) 4).Sublist (List.range' (k + 1) point.length) :=
      List.range'_sublist_right.2 hlt.le
    have hle := (hsub.map (pointMod point)).countP_le (p := fun p ↦ p.code = 0)
    have hperm := CyclicMarks.perm_map_range' (periodic_pointMod point) (k + 1)
    have hfour (i : ℕ) (hi : ¬codeAt point (i % point.length) = true) :
        (pointMod point i).code = 0 :=
      by_contra fun hne ↦ hi (decide_eq_true hne)
    rw [hperm.countP_eq, map_pointMod_range] at hle
    simp only [List.range'_succ, List.range'_zero, List.map_cons, List.map_nil, List.countP_cons,
      List.countP_nil, hfour _ h₁, hfour _ h₂, hfour _ h₃, hfour _ h₄, decide_true,
      if_true] at hle
    omega
  · have hpos : 0 < point.length := by
      refine List.length_pos_iff.2 fun hnil ↦ ?_
      rw [hnil] at hk
      simp [codeAt, pointAt] at hk
    have hperiod : codeAt point ((k + point.length) % point.length) = true := by
      rw [Nat.add_mod_right]
      exact hk
    obtain h | h | h | h : point.length = 1 ∨ point.length = 2 ∨ point.length = 3 ∨
      point.length = 4 := by omega
    all_goals rw [h] at hperiod h₁ h₂ h₃ h₄
    exacts [h₁ hperiod, h₂ hperiod, h₃ hperiod, h₄ hperiod]

/-- A recorded point, up to the number of the edge. -/
def mark (p : PointStruct K) : PointStruct K :=
  { p with code := if p.code = 0 then 0 else 1 }

omit [Field K] in
theorem mark_code_eq_zero_iff (p : PointStruct K) : (mark p).code = 0 ↔ p.code = 0 := by
  by_cases h : p.code = 0 <;> simp [mark, h]

theorem pointAt_map_mark (point : List (PointStruct K)) (j : ℕ) :
    pointAt (point.map mark) j = mark (pointAt point j) := by
  rw [pointAt, pointAt, List.getD_eq_getElem?_getD, List.getD_eq_getElem?_getD, List.getElem?_map]
  cases point[j]? with
  | none => rfl
  | some p => rfl

theorem pointMod_rotate (point : List (PointStruct K)) (m k : ℕ) :
    pointMod (point.rotate m) k = pointMod point (k + m) := by
  obtain rfl | hne := eq_or_ne point []
  · rw [List.rotate_nil]
    rfl
  · have hpos := List.length_pos_iff.2 hne
    have hlt : k % point.length < (point.rotate m).length := by
      rw [List.length_rotate]
      exact Nat.mod_lt k hpos
    rw [pointMod, List.length_rotate, pointAt, List.getD_eq_getElem?_getD,
      List.getElem?_eq_getElem hlt, List.getElem_rotate, pointMod, pointAt,
      List.getD_eq_getElem?_getD, List.getElem?_eq_getElem (Nat.mod_lt _ hpos)]
    simp only [Nat.mod_add_mod]

variable {point point' : List (PointStruct K)} {m : ℕ}

omit [Field K] in
theorem length_eq_of_map_mark (h : point'.map mark = (point.map mark).rotate m) :
    point'.length = point.length := by
  have hlength := congrArg List.length h
  rwa [List.length_rotate, List.length_map, List.length_map] at hlength

theorem mark_pointMod_of_map_mark (h : point'.map mark = (point.map mark).rotate m) (k : ℕ) :
    mark (pointMod point' k) = mark (pointMod point (k + m)) := by
  have hpoint := pointMod_rotate (point.map mark) m k
  rw [← h] at hpoint
  rw [pointMod, pointMod, pointAt_map_mark, pointAt_map_mark, List.length_map, List.length_map]
    at hpoint
  exact hpoint

theorem codeAt_of_map_mark (h : point'.map mark = (point.map mark).rotate m) (k : ℕ) :
    codeAt point' (k % point.length) = codeAt point ((k + m) % point.length) := by
  have hcode := congrArg PointStruct.code (mark_pointMod_of_map_mark h k)
  rw [pointMod, length_eq_of_map_mark h, pointMod] at hcode
  refine decide_eq_decide.2 (not_congr ?_)
  rw [← mark_code_eq_zero_iff, hcode, mark_code_eq_zero_iff]

theorem nextMark_of_map_mark (h : point'.map mark = (point.map mark).rotate m) (k : ℕ) :
    nextMark (codeAt point') point.length k + m =
      nextMark (codeAt point) point.length (k + m) := by
  simp only [nextMark, codeAt_of_map_mark h, add_right_comm k _ m]
  split_ifs <;> exact add_right_comm ..

/-! ### The result -/

variable [LinearOrder K] [CTrig K] (radius : K)

theorem measure_mark (type : FigType) (p q : PointStruct K) :
    measure radius type (mark p) (mark q) = measure radius type p q := by
  cases type <;> rfl

/-- The figure that starts at the point with the number `k`, measured. -/
def pieceAt (radius : K) (point : List (PointStruct K)) (k : ℕ) : Piece K :=
  let f := figureAt (codeAt point) point.length k
  measure radius f.type (pointAt point f.p1) (pointAt point f.p2)

/-- The figures, in the order in which the points are recorded. -/
def pieces (radius : K) (point : List (PointStruct K)) : List (Piece K) :=
  ((List.range point.length).filter fun k ↦ codeAt point (k % point.length)).map
    (pieceAt radius point)

omit [LinearOrder K] [CTrig K] in
theorem periodic_codeAt (point : List (PointStruct K)) :
    Function.Periodic (fun k ↦ codeAt point (k % point.length)) point.length := fun k ↦ by
  dsimp only
  rw [Nat.add_mod_right]

theorem periodic_pieceAt (point : List (PointStruct K)) :
    Function.Periodic (pieceAt radius point) point.length := fun k ↦ by
  have hmod (c : ℕ) : (k + point.length + c) % point.length = (k + c) % point.length := by
    rw [add_right_comm, Nat.add_mod_right]
  have hnext : nextMark (codeAt point) point.length (k + point.length) % point.length =
      nextMark (codeAt point) point.length k % point.length := by
    simp only [nextMark, hmod]
    split_ifs <;> exact hmod _
  simp only [pieceAt, figureAt, hmod, hnext, Nat.add_mod_right]

theorem pieceAt_of_map_mark (h : point'.map mark = (point.map mark).rotate m) (k : ℕ) :
    pieceAt radius point' k = pieceAt radius point (k + m) := by
  have hnext := nextMark_of_map_mark h k
  have hp := mark_pointMod_of_map_mark h k
  have hq := mark_pointMod_of_map_mark h (nextMark (codeAt point') point.length k)
  rw [hnext, pointMod, pointMod, length_eq_of_map_mark h] at hq
  rw [pointMod, pointMod, length_eq_of_map_mark h] at hp
  rw [pieceAt, pieceAt, ← measure_mark, ← measure_mark radius _ (pointAt point _)]
  simp only [figureAt, length_eq_of_map_mark h, codeAt_of_map_mark h, hp, hq, add_right_comm k 1 m]

/-- Starting with another point, there are the same figures. -/
theorem perm_pieces_of_map_mark (h : point'.map mark = (point.map mark).rotate m) :
    (pieces radius point').Perm (pieces radius point) := by
  have hperm := CyclicMarks.perm_map_filter_add (periodic_codeAt point)
    (periodic_pieceAt radius point) m
  rw [pieces, pieces, length_eq_of_map_mark h]
  simp only [codeAt_of_map_mark h]
  rw [List.map_congr_left fun k _ ↦ pieceAt_of_map_mark radius h k]
  exact hperm

omit [CTrig K] in
theorem sumFigures_congr {figure figure' : List (Piece K)} (h : figure'.Perm figure) :
    sumFigures figure' = sumFigures figure := by
  have hsum (F : Piece K → K) : (figure'.map F).sum = (figure.map F).sum := (h.map F).sum_eq
  match figure, figure', h with
  | [], _, h => rw [h.eq_nil]
  | [f], _, h => rw [List.perm_singleton.1 h]
  | f :: g :: rest, [], h => exact absurd h.symm List.not_perm_cons_nil
  | f :: g :: rest, [f'], h => exact absurd h.length_eq (by simp)
  | f :: g :: rest, f' :: g' :: rest', h => simp only [sumFigures, hsum]

/-- What is returned and written when the figures are those. -/
def clip (radius : K) (vx vy : List K) : List (Piece K) → ℕ × Option (Clip K)
  | [] => ((isInsideTriangle 0 0 vx vy).toNat, some ⟨0, 0, CTrig.twoPi * radius ^ 2⟩)
  | f :: rest => (1, some (sumFigures (f :: rest)))

theorem clip_congr {radius : K} {vx vy vx' vy' : List K} {figure figure' : List (Piece K)}
    (hinside : isInsideTriangle 0 0 vx' vy' = isInsideTriangle 0 0 vx vy)
    (h : figure'.Perm figure) : clip radius vx' vy' figure' = clip radius vx vy figure := by
  have hsum := sumFigures_congr h
  match figure, figure', h with
  | [], _, h =>
    rw [h.eq_nil, clip, clip, hinside]
  | f :: rest, [], h => exact absurd h.symm List.not_perm_cons_nil
  | f :: rest, f' :: rest', h => rw [clip, clip, hsum]

theorem calculateCentroidIntersection_eq {radius : K} {vx vy vx' vy' : List K}
    (hccw : makeCCW vx vy = some (vx', vy'))
    (hcount : (recordPoints radius vx' vy').countP (fun p ↦ p.code = 0) ≤ 3)
    (hpos : 0 < (recordPoints radius vx' vy').length) :
    calculateCentroidIntersection radius vx vy =
      some (clip radius vx' vy' (pieces radius (recordPoints radius vx' vy'))) := by
  have hwalk := walk_eq (hasNearMarks_of_countP_le hcount) hpos
  rw [calculateCentroidIntersection, hccw]
  dsimp only
  rw [hwalk]
  generalize recordPoints radius vx' vy' = point at *
  have hpieces : pieces radius point = (((List.range point.length).filter fun k ↦
      codeAt point (k % point.length)).map (figureAt (codeAt point) point.length)).map fun f ↦
        measure radius f.type (pointAt point f.p1) (pointAt point f.p2) := by
    rw [List.map_map]
    rfl
  rw [hpieces]
  cases ((List.range point.length).filter fun k ↦ codeAt point (k % point.length)).map
    (figureAt (codeAt point) point.length) with
  | nil => rfl
  | cons f rest => rfl

end Points

/-! ### Triangles -/

/-- The coordinates of a list of vertices. -/
def xs {K : Type*} (v : List (K × K)) : List K := v.map Prod.fst

def ys {K : Type*} (v : List (K × K)) : List K := v.map Prod.snd

/-- What the function does is what it should do whatever the order of the vertices: `makeCCW` leaves
the vertices in an order in which the signed area is not negative; and the result is that for any
counter-clockwise list of the same vertices. -/
structure IsOrderFree {K : Type*} [Field K] [LinearOrder K] [CTrig K] (radius : K)
    (v : List (K × K)) : Prop where
  makeCCW : ∃ vx vy, makeCCW (xs v) (ys v) = some (vx, vy) ∧ (vx.zip vy).Perm v ∧
    0 ≤ calculatePolygonArea vx vy
  result_eq : ∀ w : List (K × K), w.Perm v → 0 < calculatePolygonArea (xs w) (ys w) →
    calculateCentroidIntersection radius (xs v) (ys v) =
      calculateCentroidIntersection radius (xs w) (ys w)

section Triangles

variable {K : Type*} [Field K] [LinearOrder K] {a b c : K × K}

section

omit [LinearOrder K]

theorem calculatePolygonArea_triple (a b c : K × K) :
    calculatePolygonArea (xs [a, b, c]) (ys [a, b, c]) =
      (a.1 * b.2 - a.2 * b.1 + (b.1 * c.2 - b.2 * c.1) + (c.1 * a.2 - c.2 * a.1)) / 2 := by
  simp [calculatePolygonArea, xs, ys, List.range_succ, add_assoc]

theorem calculatePolygonArea_rotate (a b c : K × K) :
    calculatePolygonArea (xs [b, c, a]) (ys [b, c, a]) =
      calculatePolygonArea (xs [a, b, c]) (ys [a, b, c]) := by
  rw [calculatePolygonArea_triple, calculatePolygonArea_triple]
  ring

theorem calculatePolygonArea_swap (a b c : K × K) :
    calculatePolygonArea (xs [b, a, c]) (ys [b, a, c]) =
      -calculatePolygonArea (xs [a, b, c]) (ys [a, b, c]) := by
  rw [calculatePolygonArea_triple, calculatePolygonArea_triple]
  ring

end

theorem makeCCW_of_nonneg (h : 0 ≤ calculatePolygonArea (xs [a, b, c]) (ys [a, b, c])) :
    makeCCW (xs [a, b, c]) (ys [a, b, c]) = some (xs [a, b, c], ys [a, b, c]) := by
  rw [makeCCW, if_pos ⟨rfl, rfl⟩, if_neg (not_lt.2 h)]

/-- On a clockwise list the second vertex is there twice. -/
theorem makeCCW_of_neg (h : calculatePolygonArea (xs [a, b, c]) (ys [a, b, c]) < 0) :
    makeCCW (xs [a, b, c]) (ys [a, b, c]) = some (xs [b, b, c], ys [b, b, c]) := by
  rw [makeCCW, if_pos ⟨rfl, rfl⟩, if_pos h]
  rfl

omit [Field K] [LinearOrder K] in
theorem perm_triple {w : List (K × K)} (h : w.Perm [a, b, c]) :
    (w = [a, b, c] ∨ w = [b, c, a] ∨ w = [c, a, b]) ∨
      w = [b, a, c] ∨ w = [a, c, b] ∨ w = [c, b, a] := by
  have hmem : w = [a, b, c] ∨ w = [b, a, c] ∨ w = [c, b, a] ∨ w = [b, c, a] ∨ w = [c, a, b] ∨
      w = [a, c, b] := by
    simpa [List.permutations, List.permutationsAux_cons, List.permutationsAux_nil,
      List.permutationsAux2] using List.mem_permutations.2 h
  tauto

variable [CTrig K] (radius : K)

theorem recordPoints_triple (a b c : K × K) :
    recordPoints radius (xs [a, b, c]) (ys [a, b, c]) =
      recordEdge radius 0 a.1 a.2 b.1 b.2 ++ (recordEdge radius 1 b.1 b.2 c.1 c.2 ++
        recordEdge radius 2 c.1 c.2 a.1 a.2) := by
  simp [recordPoints, xs, ys, List.range_succ]

theorem countP_recordEdge_le (i : ℕ) (x1 y1 x2 y2 : K) :
    (recordEdge radius i x1 y1 x2 y2).countP (fun p ↦ p.code = 0) ≤ 1 := by
  have hinter : ((calculateIntersection radius x1 y1 x2 y2).map fun p ↦
      (⟨p.1, p.2, pointAngle p.1 p.2, .inter, i + 1⟩ : PointStruct K)).countP
        (fun p ↦ p.code = 0) = 0 := by
    rw [List.countP_map, List.countP_eq_zero]
    exact fun p _ h ↦ Nat.succ_ne_zero i (of_decide_eq_true h)
  rw [recordEdge, List.countP_cons, hinter]
  split_ifs
  · exact le_rfl
  · exact Nat.zero_le 1

theorem countP_recordPoints_le (a b c : K × K) :
    (recordPoints radius (xs [a, b, c]) (ys [a, b, c])).countP (fun p ↦ p.code = 0) ≤ 3 := by
  rw [recordPoints_triple, List.countP_append, List.countP_append]
  exact add_le_add (countP_recordEdge_le ..)
    (add_le_add (countP_recordEdge_le ..) (countP_recordEdge_le ..))

theorem length_recordPoints_pos (a b c : K × K) :
    0 < (recordPoints radius (xs [a, b, c]) (ys [a, b, c])).length := by
  rw [recordPoints_triple, recordEdge]
  exact Nat.succ_pos _

theorem map_mark_recordEdge (i i' : ℕ) (x1 y1 x2 y2 : K) :
    (recordEdge radius i x1 y1 x2 y2).map mark = (recordEdge radius i' x1 y1 x2 y2).map mark := by
  simp [recordEdge, mark]

/-- The points of the list that starts with the second vertex. -/
theorem map_mark_recordPoints_rotate (a b c : K × K) :
    (recordPoints radius (xs [b, c, a]) (ys [b, c, a])).map mark =
      ((recordPoints radius (xs [a, b, c]) (ys [a, b, c])).map mark).rotate
        (recordEdge radius 0 a.1 a.2 b.1 b.2).length := by
  have hlength : ((recordEdge radius 0 a.1 a.2 b.1 b.2).map mark).length =
      (recordEdge radius 0 a.1 a.2 b.1 b.2).length := List.length_map _
  simp only [recordPoints_triple, List.map_append]
  rw [← hlength, List.rotate_append_length_eq, List.append_assoc,
    map_mark_recordEdge radius 0 1 b.1, map_mark_recordEdge radius 1 2 c.1,
    map_mark_recordEdge radius 2 0 a.1]

/-- A vertex as seen from the origin. -/
def sight (p : K × K) : Vector3 K :=
  ![p.1, p.2, 0] - ![0, 0, 0]

def sightProduct (p q : K × K) : K :=
  Vector3.norm (sight p) * Vector3.norm (sight q)

/-- The angle under which an edge is seen. -/
def sightAngle (p q : K × K) : K :=
  CTrig.acos (sight p ⬝ᵥ sight q / sightProduct p q)

theorem angleSum_triple (a b c : K × K) :
    angleSum 0 0 (xs [a, b, c]) (ys [a, b, c]) [0, 1, 2] 0 =
      if sightProduct a b ≤ localEpsilon then CTrig.twoPi
      else if sightProduct b c ≤ localEpsilon then CTrig.twoPi
      else if sightProduct c a ≤ localEpsilon then CTrig.twoPi
      else sightAngle a b + sightAngle b c + sightAngle c a := by
  simp only [angleSum, xs, ys, List.map_cons, List.map_nil, List.length_cons, List.length_nil,
    List.getD_cons_zero, List.getD_cons_succ, Nat.reduceAdd, Nat.reduceMod, zero_add]
  rfl

theorem isInsideTriangle_rotate (a b c : K × K) :
    isInsideTriangle 0 0 (xs [b, c, a]) (ys [b, c, a]) =
      isInsideTriangle 0 0 (xs [a, b, c]) (ys [a, b, c]) := by
  have hsum : angleSum 0 0 (xs [b, c, a]) (ys [b, c, a]) [0, 1, 2] 0 =
      angleSum 0 0 (xs [a, b, c]) (ys [a, b, c]) [0, 1, 2] 0 := by
    rw [angleSum_triple, angleSum_triple]
    split_ifs
    any_goals rfl
    rw [add_comm, ← add_assoc]
  rw [isInsideTriangle, hsum]
  rfl

/-- The result does not depend on which vertex of a counter-clockwise list is the first one. -/
theorem calculateCentroidIntersection_rotate
    (h : 0 ≤ calculatePolygonArea (xs [a, b, c]) (ys [a, b, c])) :
    calculateCentroidIntersection radius (xs [b, c, a]) (ys [b, c, a]) =
      calculateCentroidIntersection radius (xs [a, b, c]) (ys [a, b, c]) := by
  have h' := (calculatePolygonArea_rotate a b c).symm ▸ h
  rw [calculateCentroidIntersection_eq (makeCCW_of_nonneg h) (countP_recordPoints_le radius a b c)
      (length_recordPoints_pos radius a b c),
    calculateCentroidIntersection_eq (makeCCW_of_nonneg h') (countP_recordPoints_le radius b c a)
      (length_recordPoints_pos radius b c a)]
  exact congrArg some (clip_congr (isInsideTriangle_rotate a b c)
    (perm_pieces_of_map_mark radius (map_mark_recordPoints_rotate radius a b c)))

theorem pieces_of_code_ne_zero {p q r : PointStruct K} (hp : p.code ≠ 0) (hq : q.code ≠ 0)
    (hr : r.code ≠ 0) :
    pieces radius [p, q, r] =
      [measure radius .tri p q, measure radius .tri q r, measure radius .tri r p] := by
  simp [pieces, pieceAt, figureAt, nextMark, codeAt, pointAt, List.range_succ, hp, hq, hr]

/-- A triangle inside the circle has the signed area of the list that `makeCCW` leaves. -/
theorem exists_area_eq_of_isInside {radius : K} {vx vy : List K}
    (hccw : makeCCW vx vy = some (xs [a, b, c], ys [a, b, c]))
    (ha : isInsideCircle radius a.1 a.2 = true) (hb : isInsideCircle radius b.1 b.2 = true)
    (hc : isInsideCircle radius c.1 c.2 = true)
    (hab : calculateIntersection radius a.1 a.2 b.1 b.2 = [])
    (hbc : calculateIntersection radius b.1 b.2 c.1 c.2 = [])
    (hca : calculateIntersection radius c.1 c.2 a.1 a.2 = []) :
    ∃ s, calculateCentroidIntersection radius vx vy = some (1, some s) ∧
      s.A = calculatePolygonArea (xs [a, b, c]) (ys [a, b, c]) := by
  have hpoint : recordPoints radius (xs [a, b, c]) (ys [a, b, c]) =
      [⟨a.1, a.2, pointAngle a.1 a.2, .vertex, 1⟩, ⟨b.1, b.2, pointAngle b.1 b.2, .vertex, 1⟩,
        ⟨c.1, c.2, pointAngle c.1 c.2, .vertex, 1⟩] := by
    rw [recordPoints_triple]
    simp only [recordEdge, ha, hb, hc, hab, hbc, hca]
    rfl
  rw [calculateCentroidIntersection_eq hccw (countP_recordPoints_le radius a b c)
    (length_recordPoints_pos radius a b c), hpoint,
    pieces_of_code_ne_zero radius one_ne_zero one_ne_zero one_ne_zero]
  refine ⟨_, rfl, ?_⟩
  have hsum : (a.1 * b.2 - a.2 * b.1) / 2 + ((b.1 * c.2 - b.2 * c.1) / 2 +
      ((c.1 * a.2 - c.2 * a.1) / 2 + 0)) = calculatePolygonArea (xs [a, b, c]) (ys [a, b, c]) := by
    rw [calculatePolygonArea_triple]
    ring
  rw [← hsum]
  simp [sumFigures, measure, calculatePolygonArea, List.range_succ]

end Triangles

/-- The order of the vertices does not matter if and only if they are not listed clockwise. -/
theorem isOrderFree_iff (radius : ℝ) {v : List (ℝ × ℝ)} (h : v.length = 3) :
    IsOrderFree radius v ↔ 0 ≤ calculatePolygonArea (xs v) (ys v) := by
  obtain ⟨a, b, c, rfl⟩ := List.length_eq_three.1 h
  refine ⟨fun ⟨hccw, _⟩ ↦ ?_, fun harea ↦ ⟨⟨_, _, makeCCW_of_nonneg harea, ?_, harea⟩, ?_⟩⟩
  · by_contra hneg
    rw [not_le] at hneg
    obtain ⟨vx, vy, hsome, hperm, -⟩ := hccw
    obtain ⟨rfl, rfl⟩ : xs [b, b, c] = vx ∧ ys [b, b, c] = vy := by
      rw [makeCCW_of_neg hneg] at hsome
      exact Prod.mk.inj (Option.some.inj hsome)
    -- the first vertex would be the second one, and the area zero
    have hab : ([b] ++ [b, c]).Perm ([a] ++ [b, c]) := hperm
    have heq : b = a := List.singleton_perm_singleton.1 ((List.perm_append_right_iff _).1 hab)
    rw [heq, calculatePolygonArea_triple] at hneg
    refine hneg.ne ?_
    ring
  · exact List.Perm.refl _
  · intro w hw hpos
    obtain (rfl | rfl | rfl) | h := perm_triple hw
    · rfl
    · exact (calculateCentroidIntersection_rotate radius harea).symm
    · have harea' := (calculatePolygonArea_rotate a b c).symm ▸ harea
      exact ((calculateCentroidIntersection_rotate radius harea').trans
        (calculateCentroidIntersection_rotate radius harea)).symm
    · have hodd : calculatePolygonArea (xs w) (ys w) =
          -calculatePolygonArea (xs [a, b, c]) (ys [a, b, c]) := by
        rw [← calculatePolygonArea_swap]
        obtain rfl | rfl | rfl := h
        · rfl
        · exact calculatePolygonArea_rotate b a c
        · exact (calculatePolygonArea_rotate a c b).trans (calculatePolygonArea_rotate b a c)
      rw [hodd] at hpos
      exact absurd harea (not_le.2 (neg_pos.1 hpos))

theorem isOrderFree_counterClockwise : IsOrderFree (1 : ℝ) [(0, 0), (1, 0), (0, 1)] := by
  refine (isOrderFree_iff 1 rfl).2 ?_
  rw [calculatePolygonArea_triple]
  norm_num

/-- A triangle with two vertices on the unit circle and one in its center has no area when it is
listed clockwise. -/
theorem not_isOrderFree_clockwise :
    ¬IsOrderFree (1 : ℝ) [(0, 0), (0, 1), (1, 0)] ∧
      ∃ s s', calculateCentroidIntersection (1 : ℝ) (xs [(0, 0), (0, 1), (1, 0)])
          (ys [(0, 0), (0, 1), (1, 0)]) = some (1, some s) ∧ s.A = 0 ∧
        calculateCentroidIntersection (1 : ℝ) (xs [(0, 0), (1, 0), (0, 1)])
          (ys [(0, 0), (1, 0), (0, 1)]) = some (1, some s') ∧ s'.A = 1 / 2 := by
  have hneg : calculatePolygonArea (xs [((0 : ℝ), (0 : ℝ)), (0, 1), (1, 0)])
      (ys [(0, 0), (0, 1), (1, 0)]) < 0 := by
    rw [calculatePolygonArea_triple]
    norm_num
  have hpos : 0 < calculatePolygonArea (xs [((0 : ℝ), (0 : ℝ)), (1, 0), (0, 1)])
      (ys [(0, 0), (1, 0), (0, 1)]) := by
    rw [calculatePolygonArea_triple]
    norm_num
  have hmem (x y : ℝ) (h : x ^ 2 + y ^ 2 ≤ 1) : isInsideCircle 1 x y = true := by
    simpa [isInsideCircle, CMath.sqrt] using h
  -- an edge with an end on the circle has no intersections
  have hinter (x1 y1 x2 y2 : ℝ) (h : x1 ^ 2 + y1 ^ 2 = 1 ∨ x2 ^ 2 + y2 ^ 2 = 1) :
      calculateIntersection 1 x1 y1 x2 y2 = [] := by
    refine if_neg fun hne ↦ h.elim (fun h ↦ hne.1 ?_) fun h ↦ hne.2 ?_
    · rw [h]
      exact Real.sqrt_one
    · rw [h]
      exact Real.sqrt_one
  obtain ⟨s, hs, hA⟩ := exists_area_eq_of_isInside (makeCCW_of_neg hneg)
    (hmem _ _ (by norm_num)) (hmem _ _ (by norm_num)) (hmem _ _ (by norm_num))
    (hinter _ _ _ _ (by norm_num)) (hinter _ _ _ _ (by norm_num)) (hinter _ _ _ _ (by norm_num))
  obtain ⟨s', hs', hA'⟩ := exists_area_eq_of_isInside (makeCCW_of_nonneg hpos.le)
    (hmem _ _ (by norm_num)) (hmem _ _ (by norm_num)) (hmem _ _ (by norm_num))
    (hinter _ _ _ _ (by norm_num)) (hinter _ _ _ _ (by norm_num)) (hinter _ _ _ _ (by norm_num))
  rw [calculatePolygonArea_triple] at hA hA'
  norm_num at hA hA'
  refine ⟨fun h ↦ ?_, s, s', hs, hA, hs', hA'⟩
  have heq := h.result_eq [(0, 0), (1, 0), (0, 1)] ((List.Perm.swap ..).cons _) hpos
  rw [hs, hs'] at heq
  simp only [Option.some.injEq, Prod.mk.injEq, true_and] at heq
  rw [heq, hA'] at hA
  norm_num at hA

end OpenHRP.CircleTriangle
