import OpenHRP.Foundations.BoxQuadratic
import OpenHRP.Model.RealMath

/-!
# The distance of two segments

`SegSegDist` finds the closest points of two segments. The square of the distance is a quadratic
function of the two parameters; the program starts from the closest points of the two lines, cuts
their parameters off at the ends of the segments, one after the other, and divides at last.

In exact arithmetic this gives the least distance. But three tests compare with an absolute
threshold: lines are taken as parallel when `|u|² |v|² - (u · v)²` is less than it, and at last a
numerator that is less is replaced by zero. So short segments, or segments that start close to the
closest points, get a distance that is too great, unless the tests happen to do no harm
(`reportsMinimum_iff`).
-/

open Matrix

namespace OpenHRP.SegSegDist

variable {K : Type*} [Field K] [LinearOrder K]

/-- `EPS`. -/
def eps : K :=
  1 / 10 ^ 8

/-- The line parameters `sc = sN / sD` and `tc = tN / tD` of the two closest points. -/
structure Parameters (K : Type*) where
  sN : K
  sD : K
  tN : K
  tD : K

/-- The parameters after the first branches: the closest points of the two lines, with that on the
first line moved to an end of its segment. -/
def lineParameters (a b c d e : K) : Parameters K :=
  let D := a * c - b * b
  if D < eps then ⟨0, 1, e, c⟩
  else
    let sN := b * e - c * d
    if sN < 0 then ⟨0, D, e, c⟩
    else if D < sN then ⟨D, D, e + b, c⟩
    else ⟨sN, D, a * e - b * d, D⟩

/-- The recomputation of `sc` for an edge. -/
def edgeParameters (n a : K) (sD tN tD : K) : Parameters K :=
  if n < 0 then ⟨0, sD, tN, tD⟩
  else if a < n then ⟨sD, sD, tN, tD⟩
  else ⟨n, a, tN, tD⟩

/-- The parameters before the division, when also the point on the second line is moved to an end
of its segment. -/
def segmentParameters (a b c d e : K) : Parameters K :=
  let p := lineParameters a b c d e
  if p.tN < 0 then edgeParameters (-d) a p.sD 0 p.tD
  else if p.tD < p.tN then edgeParameters (-d + b) a p.sD p.tD p.tD
  else p

/-- The division. -/
def divide (n d : K) : K :=
  if |n| < eps then 0 else n / d

/-- What `SegSegDist` computes of its arguments: the parameters before the division. -/
def parameters (u0 u v0 v : Vector3 K) : Parameters K :=
  let w := u0 - v0
  segmentParameters (u ⬝ᵥ u) (u ⬝ᵥ v) (v ⬝ᵥ v) (u ⬝ᵥ w) (v ⬝ᵥ w)

def sc (u0 u v0 v : Vector3 K) : K :=
  divide (parameters u0 u v0 v).sN (parameters u0 u v0 v).sD

def tc (u0 u v0 v : Vector3 K) : K :=
  divide (parameters u0 u v0 v).tN (parameters u0 u v0 v).tD

/-- The distance, and the closest points `cp0` and `cp1`. -/
def segSegDist [CMath K] (u0 u v0 v : Vector3 K) : K × Vector3 K × Vector3 K :=
  let cp0 := u0 + sc u0 u v0 v • u
  let cp1 := v0 + tc u0 u v0 v • v
  (Vector3.norm (cp0 - cp1), cp0, cp1)

/-- The point is on the segment from `x` to `x + u`. -/
def OnSegment (x u p : Vector3 K) : Prop :=
  ∃ s : K, 0 ≤ s ∧ s ≤ 1 ∧ p = x + s • u

/-- The reported distance is the distance of the reported points; these are on the segments; and no
points of the segments are closer. -/
structure ReportsMinimum [CMath K] (u0 u v0 v : Vector3 K) : Prop where
  dist_eq : (segSegDist u0 u v0 v).1 =
    Vector3.norm ((segSegDist u0 u v0 v).2.1 - (segSegDist u0 u v0 v).2.2)
  cp0_mem : OnSegment u0 u (segSegDist u0 u v0 v).2.1
  cp1_mem : OnSegment v0 v (segSegDist u0 u v0 v).2.2
  le : ∀ x y, OnSegment u0 u x → OnSegment v0 v y → (segSegDist u0 u v0 v).1 ≤ Vector3.norm (x - y)

/-- The number under which the lines are taken as parallel. -/
def parallelity (u v : Vector3 K) : K :=
  (u ⬝ᵥ u) * (v ⬝ᵥ v) - (u ⬝ᵥ v) * (u ⬝ᵥ v)

/-- The test with the threshold does not find a number small that is not zero. -/
def TestsExactly (x : K) : Prop :=
  x = 0 ∨ eps ≤ |x|

/-! ### The closest points of the lines -/

variable [IsStrictOrderedRing K] {a b c d e : K}

theorem eps_pos : (0 : K) < eps :=
  one_div_pos.2 (pow_pos (Nat.cast_pos.2 (by decide)) 8)

/-- What the first branches find: the parameter `sN / sD` is on its segment and is the best one for
`tN / tD`, which in turn is the best one for it on the second line. -/
structure IsLineOptimum (q : BoxQuadratic K) (p : Parameters K) : Prop where
  sD_pos : 0 < p.sD
  tD_pos : 0 < p.tD
  s_nonneg : 0 ≤ p.sN / p.sD
  s_le_one : p.sN / p.sD ≤ 1
  bestS : q.BestS (p.sN / p.sD) (p.tN / p.tD)
  slopeT_eq : q.slopeT (p.sN / p.sD) (p.tN / p.tD) = 0

theorem isLineOptimum_lineParameters (hc : 0 < c)
    (hD : a * c - b * b = 0 ∨ eps ≤ a * c - b * b) (hparallel : a * c - b * b = 0 → b * e = c * d) :
    IsLineOptimum ⟨a, b, c, d, e⟩ (lineParameters a b c d e) := by
  rw [lineParameters]
  dsimp only
  split_ifs with hlt hneg hgt
  · have h0 := hparallel (hD.resolve_right (not_le.2 hlt))
    refine ⟨zero_lt_one, hc, ?_, ?_, fun s' hs _ ↦ ?_, ?_⟩
    · rw [zero_div]
    · rw [zero_div]
      exact zero_le_one
    · have hslope : (⟨a, b, c, d, e⟩ : BoxQuadratic K).slopeS (0 / 1) (e / c) = 0 := by
        simp only [BoxQuadratic.slopeS]
        field_simp
        linarith
      rw [hslope, zero_mul]
    · simp only [BoxQuadratic.slopeT]
      field_simp
      ring
  all_goals have hpos : 0 < a * c - b * b := eps_pos.trans_le (not_lt.1 hlt)
  · refine ⟨hpos, hc, ?_, ?_, fun s' hs _ ↦ ?_, ?_⟩
    · rw [zero_div]
    · rw [zero_div]
      exact zero_le_one
    · have hslope : (⟨a, b, c, d, e⟩ : BoxQuadratic K).slopeS (0 / (a * c - b * b)) (e / c) =
          -(b * e - c * d) / c := by
        simp only [BoxQuadratic.slopeS, zero_div]
        field_simp
        ring
      rw [hslope, zero_div, sub_zero]
      exact mul_nonneg (div_nonneg (by linarith) hc.le) hs
    · simp only [BoxQuadratic.slopeT, zero_div]
      field_simp
      ring
  · refine ⟨hpos, hc, ?_, ?_, fun s' _ hs ↦ ?_, ?_⟩
    · rw [div_self hpos.ne']
      exact zero_le_one
    · rw [div_self hpos.ne']
    · have hslope : (⟨a, b, c, d, e⟩ : BoxQuadratic K).slopeS 1 ((e + b) / c) =
          (a * c - b * b - (b * e - c * d)) / c := by
        simp only [BoxQuadratic.slopeS]
        field_simp
        ring
      rw [div_self hpos.ne', hslope]
      exact mul_nonneg_of_nonpos_of_nonpos
        (div_nonpos_of_nonpos_of_nonneg (by linarith) hc.le) (by linarith)
    · rw [div_self hpos.ne']
      simp only [BoxQuadratic.slopeT]
      field_simp
      ring
  · have hne : a * c - b ^ 2 ≠ 0 := by
      rw [sq]
      exact hpos.ne'
    have hslope : (⟨a, b, c, d, e⟩ : BoxQuadratic K).slopeS ((b * e - c * d) / (a * c - b * b))
        ((a * e - b * d) / (a * c - b * b)) = 0 := by
      simp only [BoxQuadratic.slopeS]
      field_simp
      ring
    refine ⟨hpos, hpos, div_nonneg (not_lt.1 hneg) hpos.le, (div_le_one hpos).2 (not_lt.1 hgt),
      fun s' _ _ ↦ ?_, ?_⟩
    · rw [hslope, zero_mul]
    · rw [mul_comm a c] at hne
      simp only [BoxQuadratic.slopeT]
      field_simp
      ring

/-! ### The closest points of the segments -/

/-- What all branches find: a stationary place of the distance. -/
structure IsSegmentOptimum (q : BoxQuadratic K) (p : Parameters K) : Prop where
  sD_pos : 0 < p.sD
  tD_pos : 0 < p.tD
  stationary : q.IsStationary (p.sN / p.sD) (p.tN / p.tD)

section

omit [IsStrictOrderedRing K]

/-- The recomputation gives the quotient, cut off at the ends of the segment. -/
theorem edgeParameters_div (n : K) {sD : K} (tN tD : K) (ha : 0 < a) (hsD : 0 < sD) :
    0 < (edgeParameters n a sD tN tD).sD ∧
      (edgeParameters n a sD tN tD).sN / (edgeParameters n a sD tN tD).sD =
        BoxQuadratic.clampDiv n a := by
  rw [edgeParameters, BoxQuadratic.clampDiv]
  split_ifs
  · exact ⟨hsD, zero_div _⟩
  · exact ⟨hsD, div_self hsD.ne'⟩
  · exact ⟨ha, rfl⟩

theorem edgeParameters_tN (n sD tN tD : K) :
    (edgeParameters n a sD tN tD).tN = tN ∧ (edgeParameters n a sD tN tD).tD = tD := by
  rw [edgeParameters]
  split_ifs <;> exact ⟨rfl, rfl⟩

end

theorem isSegmentOptimum_segmentParameters (ha : 0 < a) (hc : 0 < c) (hnonneg : 0 ≤ a * c - b * b)
    (hD : a * c - b * b = 0 ∨ eps ≤ a * c - b * b) (hparallel : a * c - b * b = 0 → b * e = c * d) :
    IsSegmentOptimum ⟨a, b, c, d, e⟩ (segmentParameters a b c d e) := by
  obtain ⟨hsD, htD, hs, hs', hbest, hslope⟩ := isLineOptimum_lineParameters hc hD hparallel
  rw [segmentParameters]
  generalize lineParameters a b c d e = p at *
  split_ifs with hneg hgt
  · obtain ⟨hpos, hdiv⟩ := edgeParameters_div (-d) 0 p.tD ha hsD
    obtain ⟨htN, htD'⟩ := edgeParameters_tN (a := a) (-d) p.sD 0 p.tD
    refine ⟨hpos, htD'.symm ▸ htD, ?_⟩
    have h := BoxQuadratic.isStationary_zero (q := ⟨a, b, c, d, e⟩) ha hc hnonneg hs hs'
      (div_neg_of_neg_of_pos hneg htD) hbest hslope
    rw [hdiv, htN, zero_div]
    simpa using h
  · obtain ⟨hpos, hdiv⟩ := edgeParameters_div (-d + b) p.tD p.tD ha hsD
    obtain ⟨htN, htD'⟩ := edgeParameters_tN (a := a) (-d + b) p.sD p.tD p.tD
    refine ⟨hpos, htD'.symm ▸ htD, ?_⟩
    have h := BoxQuadratic.isStationary_one (q := ⟨a, b, c, d, e⟩) ha hc hnonneg hs hs'
      ((one_lt_div htD).2 hgt) hbest hslope
    rw [hdiv, htN, htD', div_self htD.ne', show -d + b = b * 1 - d by ring]
    exact h
  · exact ⟨hsD, htD, BoxQuadratic.isStationary_of_mem hs hs' (div_nonneg (not_lt.1 hneg) htD.le)
      ((div_le_one htD).2 (not_lt.1 hgt)) hbest hslope⟩

/-! ### The division -/

section

omit [IsStrictOrderedRing K]

theorem divide_of_testsExactly {n : K} (d : K) (h : TestsExactly n) : divide n d = n / d := by
  rw [divide]
  obtain h | h := h
  · rw [h, zero_div, ite_self]
  · rw [if_neg (not_lt.2 h)]

theorem divide_of_not_testsExactly {n d : K} (hd : 0 < d) (h : ¬TestsExactly n) :
    divide n d = 0 ∧ n / d ≠ 0 := by
  obtain ⟨hne, hlt⟩ := not_or.1 h
  exact ⟨if_pos (not_le.1 hlt), div_ne_zero hne hd.ne'⟩

end

theorem divide_mem {n d : K} (h : 0 ≤ n / d) (h' : n / d ≤ 1) :
    0 ≤ divide n d ∧ divide n d ≤ 1 := by
  rw [divide]
  split_ifs
  · exact ⟨le_rfl, zero_le_one⟩
  · exact ⟨h, h'⟩

/-- On parallel lines, when both parameters are nonzero before the division, the second one has been
cut off at one. -/
theorem lt_of_parallel (hD : a * c - b * b = 0) (hs : (segmentParameters a b c d e).sN ≠ 0)
    (ht : (segmentParameters a b c d e).tN ≠ 0) : c < e := by
  have hline : lineParameters a b c d e = ⟨0, 1, e, c⟩ := by
    rw [lineParameters, if_pos (hD.trans_lt eps_pos)]
  rw [segmentParameters, hline] at hs ht
  dsimp only at hs ht
  by_contra hle
  split_ifs at hs ht with hneg
  · exact ht (edgeParameters_tN _ _ _ _).1
  · exact hs rfl

/-- When one of the final tests makes a parameter zero that is not, there is a place in the square
where the value is less. -/
theorem value_lt_of_not_testsExactly (ha : 0 < a) (hc : 0 < c) (hnonneg : 0 ≤ a * c - b * b)
    (hD : a * c - b * b = 0 ∨ eps ≤ a * c - b * b) (hparallel : a * c - b * b = 0 → b * e = c * d)
    (h : ¬(TestsExactly (segmentParameters a b c d e).sN ∧
      TestsExactly (segmentParameters a b c d e).tN)) :
    let q : BoxQuadratic K := ⟨a, b, c, d, e⟩
    let p := segmentParameters a b c d e
    q.value (p.sN / p.sD) (p.tN / p.tD) < q.value (divide p.sN p.sD) (divide p.tN p.tD) := by
  intro q p
  obtain ⟨hsD, htD, hopt⟩ := isSegmentOptimum_segmentParameters ha hc hnonneg hD hparallel
  have hs := divide_mem hopt.s_nonneg hopt.s_le_one
  have ht := divide_mem hopt.t_nonneg hopt.t_le_one
  obtain hzero | heps := hD
  · by_cases hsN : TestsExactly p.sN
    · -- only the second parameter changes
      obtain ⟨h0, hne⟩ := divide_of_not_testsExactly htD fun htN ↦ h ⟨hsN, htN⟩
      rw [divide_of_testsExactly _ hsN] at hs ⊢
      refine hopt.value_lt hs.1 hs.2 ht.1 ht.2 ?_
      rw [sub_self, h0]
      exact BoxQuadratic.form_pos_right hc (sub_ne_zero.2 hne.symm)
    · obtain ⟨h0, hne⟩ := divide_of_not_testsExactly hsD hsN
      by_cases htN : TestsExactly p.tN
      · rw [divide_of_testsExactly _ htN] at ht ⊢
        refine hopt.value_lt hs.1 hs.2 ht.1 ht.2 ?_
        rw [sub_self, h0]
        exact BoxQuadratic.form_pos_left ha (sub_ne_zero.2 hne.symm)
      · -- both become zero, and the other end of the second segment is closer
        obtain ⟨h0', -⟩ := divide_of_not_testsExactly htD htN
        have hlt := lt_of_parallel hzero (not_or.1 hsN).1 (not_or.1 htN).1
        rw [h0, h0']
        refine (hopt.value_le (BoxQuadratic.form_nonneg ha hnonneg) le_rfl zero_le_one zero_le_one
          le_rfl).trans_lt ?_
        simp only [BoxQuadratic.value]
        linarith
  · refine hopt.value_lt hs.1 hs.2 ht.1 ht.2
      (BoxQuadratic.form_pos ha (eps_pos.trans_le heps) ?_)
    by_contra hboth
    obtain ⟨hsE, htE⟩ := not_or.1 hboth
    refine h ⟨by_contra fun hsN ↦ hsE ?_, by_contra fun htN ↦ htE ?_⟩
    · obtain ⟨h0, hne⟩ := divide_of_not_testsExactly hsD hsN
      rw [h0]
      exact sub_ne_zero.2 hne.symm
    · obtain ⟨h0, hne⟩ := divide_of_not_testsExactly htD htN
      rw [h0]
      exact sub_ne_zero.2 hne.symm

variable {q : BoxQuadratic K} {p : Parameters K}

/-- When the lines are taken as parallel only if they are, the reported pair is the right one if and
only if the last two tests are right. -/
theorem isStationary_iff_of_testsExactly (ha : 0 < q.a) (hc : 0 < q.c)
    (hnonneg : 0 ≤ q.a * q.c - q.b * q.b)
    (hD : q.a * q.c - q.b * q.b = 0 ∨ eps ≤ q.a * q.c - q.b * q.b)
    (hparallel : q.a * q.c - q.b * q.b = 0 → q.b * q.e = q.c * q.d)
    (hp : p = segmentParameters q.a q.b q.c q.d q.e) :
    q.IsStationary (divide p.sN p.sD) (divide p.tN p.tD) ↔
      TestsExactly p.sN ∧ TestsExactly p.tN := by
  obtain ⟨-, -, hopt⟩ := isSegmentOptimum_segmentParameters ha hc hnonneg hD hparallel
  refine ⟨fun h ↦ by_contra fun hex ↦ ?_, fun hex ↦ ?_⟩
  · rw [hp] at h hex
    refine (value_lt_of_not_testsExactly ha hc hnonneg hD hparallel hex).not_ge ?_
    exact h.value_le (BoxQuadratic.form_nonneg ha hnonneg) hopt.s_nonneg hopt.s_le_one
      hopt.t_nonneg hopt.t_le_one
  · rw [divide_of_testsExactly _ hex.1, divide_of_testsExactly _ hex.2, hp]
    exact hopt

/-! ### Lines that are taken as parallel and are not -/

/-- The pair that is found from the first end of the first segment is the right one: the parameter
on the second line is cut off at the same end for the second value of the first parameter. -/
def StartIsHarmless (q : BoxQuadratic K) : Prop :=
  if q.e < 0 then q.b * BoxQuadratic.clampDiv (q.b * 0 - q.d) q.a + q.e ≤ 0
  else if q.c < q.e then q.c ≤ q.b * BoxQuadratic.clampDiv (q.b * 1 - q.d) q.a + q.e
  else q.b * q.e ≤ q.c * q.d

/-- The least distance is at the second end of the first segment and the first end of the second
one, which two errors find: the second end of the second segment is taken for the closer one, and
its parameter is replaced by zero. -/
def ErrorsCancel (q : BoxQuadratic K) : Prop :=
  q.c < eps ∧ q.c < q.e ∧ q.e ≤ -q.b ∧ q.a ≤ q.b * 1 - q.d

section

omit [IsStrictOrderedRing K]

theorem segmentParameters_of_lt (hD : a * c - b * b < eps) :
    segmentParameters a b c d e =
      if e < 0 then edgeParameters (-d) a 1 0 c
      else if c < e then edgeParameters (-d + b) a 1 c c
      else ⟨0, 1, e, c⟩ := by
  rw [segmentParameters, lineParameters, if_pos hD]

theorem testsExactly_zero : TestsExactly (0 : K) :=
  Or.inl rfl

end

/-- At an end of the second segment, with the parameter of the first one recomputed for it. -/
theorem isStationary_edge_iff {n t : K} (tN tD : K) (hp : p = edgeParameters n q.a 1 tN tD)
    (ha : 0 < q.a) (hn : n = q.b * t - q.d) (ht : 0 ≤ t) (ht₁ : t ≤ 1) :
    q.IsStationary (divide p.sN p.sD) t ↔
      TestsExactly p.sN ∧ q.BestT (BoxQuadratic.clampDiv (q.b * t - q.d) q.a) t := by
  have hmem := BoxQuadratic.clampDiv_mem (n := q.b * t - q.d) ha
  have hbest := BoxQuadratic.bestS_clampDiv ha t
  obtain ⟨hpos, hdiv⟩ := edgeParameters_div n tN tD ha zero_lt_one
  rw [← hp] at hpos hdiv
  rw [hn] at hdiv
  refine ⟨fun h ↦ ?_, fun ⟨hex, hbestT⟩ ↦ ?_⟩
  · have heq := h.bestS.eq ha hbest h.s_nonneg h.s_le_one hmem.1 hmem.2
    refine ⟨by_contra fun hex ↦ ?_, heq ▸ h.bestT⟩
    obtain ⟨h0, hne⟩ := divide_of_not_testsExactly hpos hex
    exact hne (hdiv.trans (heq.symm.trans h0))
  · rw [divide_of_testsExactly _ hex, hdiv]
    exact ⟨hmem.1, hmem.2, ht, ht₁, hbest, hbestT⟩

/-- The two errors cancel when the parameter on the second segment is cut off at one and then
replaced by zero. -/
theorem isStationary_zero_iff_errorsCancel (ha : 0 < q.a)
    (hp : p = edgeParameters (-q.d + q.b) q.a 1 q.c q.c) (hc : q.c < eps) (he : q.c < q.e)
    (hpos : 0 < q.e) :
    q.IsStationary (divide p.sN p.sD) 0 ↔ TestsExactly p.sN ∧ ErrorsCancel q := by
  have hbest := BoxQuadratic.bestS_clampDiv ha 1
  obtain ⟨hsD, hdiv⟩ := edgeParameters_div (-q.d + q.b) q.c q.c ha zero_lt_one
  rw [← hp, show -q.d + q.b = q.b * 1 - q.d by ring] at hdiv
  rw [← hp] at hsD
  rw [← hdiv] at hbest
  refine ⟨fun h ↦ ?_, fun ⟨hex, _, _, hb, hs⟩ ↦ ?_⟩
  · have hT := BoxQuadratic.bestT_zero_iff.1 h.bestT
    have hex : TestsExactly p.sN := by
      by_contra hex
      rw [(divide_of_not_testsExactly hsD hex).1] at hT
      linarith
    rw [divide_of_testsExactly _ hex] at h hT
    generalize p.sN / p.sD = s at *
    have hs₀ := hbest 0 le_rfl zero_le_one
    have hs₁ := h.bestS 1 zero_le_one le_rfl
    simp only [BoxQuadratic.slopeS, mul_zero, sub_zero, mul_one, zero_sub] at hs₀ hs₁
    have hbs : q.b * s < 0 := by linarith
    have hspos : 0 < s := h.s_nonneg.lt_of_ne fun h0 ↦ hbs.ne (by rw [← h0, mul_zero])
    have hb : q.b < 0 := neg_of_mul_neg_left hbs hspos.le
    have hone : q.a * s - q.b + q.d ≤ 0 := by
      rw [mul_neg, neg_nonneg] at hs₀
      exact nonpos_of_mul_nonpos_left hs₀ hspos
    -- below one, the slope for the other end of the second segment would have the other sign
    have hs : s = 1 := by
      refine h.s_le_one.eq_of_not_lt fun hlt ↦ ?_
      have := nonneg_of_mul_nonneg_left hs₁ (sub_pos.2 hlt)
      linarith
    rw [hs, mul_one] at hone hT
    exact ⟨hex, hc, he, by linarith, by linarith⟩
  · rw [divide_of_testsExactly _ hex, hdiv, BoxQuadratic.clampDiv_of_le ha hs]
    exact {
      s_nonneg := zero_le_one
      s_le_one := le_rfl
      t_nonneg := le_rfl
      t_le_one := zero_le_one
      bestS := fun s' _ hs' ↦ by
        refine mul_nonneg_of_nonpos_of_nonpos ?_ (sub_nonpos.2 hs')
        rw [BoxQuadratic.slopeS]
        linarith
      bestT := BoxQuadratic.bestT_zero_iff.2 (by linarith) }

/-- When the lines are taken as parallel, the reported pair is the right one in two cases: no error
is made, or two errors cancel. -/
theorem isStationary_iff_of_lt (ha : 0 < q.a) (hc : 0 < q.c) (hD : q.a * q.c - q.b * q.b < eps)
    (hp : p = segmentParameters q.a q.b q.c q.d q.e) :
    q.IsStationary (divide p.sN p.sD) (divide p.tN p.tD) ↔
      TestsExactly p.sN ∧ (TestsExactly p.tN ∧ StartIsHarmless q ∨ ErrorsCancel q) := by
  rw [segmentParameters_of_lt hD] at hp
  rw [StartIsHarmless]
  split_ifs at hp ⊢ with hneg hgt
  · have hcancel : ¬ErrorsCancel q := fun h ↦ (hc.trans h.2.1).not_gt hneg
    have hedge := isStationary_edge_iff 0 q.c hp ha (by ring) le_rfl zero_le_one
    obtain ⟨htN, htD⟩ := edgeParameters_tN (a := q.a) (-q.d) 1 0 q.c
    rw [← hp] at htN htD
    rw [htN, htD, divide_of_testsExactly _ testsExactly_zero, zero_div, or_iff_left hcancel, hedge,
      BoxQuadratic.bestT_zero_iff, and_iff_right testsExactly_zero]
  · obtain ⟨htN, htD⟩ := edgeParameters_tN (a := q.a) (-q.d + q.b) 1 q.c q.c
    rw [← hp] at htN htD
    rw [htN, htD]
    by_cases hex : TestsExactly q.c
    · have hcancel : ¬ErrorsCancel q := fun h ↦
        (hex.resolve_left hc.ne').not_gt ((abs_of_pos hc).trans_lt h.1)
      have hedge := isStationary_edge_iff q.c q.c hp ha (by ring) zero_le_one le_rfl
      rw [divide_of_testsExactly _ hex, div_self hc.ne', or_iff_left hcancel, hedge,
        BoxQuadratic.bestT_one_iff, and_iff_right hex]
    · have hlt : q.c < eps := (abs_of_pos hc).symm.trans_lt (not_le.1 (not_or.1 hex).2)
      rw [(divide_of_not_testsExactly hc hex).1, or_iff_right fun h ↦ hex h.1]
      exact isStationary_zero_iff_errorsCancel ha hp hlt hgt (hc.trans hgt)
  · have hcancel : ¬ErrorsCancel q := fun h ↦ hgt h.2.1
    have hsN : p.sN = 0 := by rw [hp]
    have htN : p.tN = q.e := by rw [hp]
    have htD : p.tD = q.c := by rw [hp]
    have hslope : q.slopeS 0 (q.e / q.c) = (q.c * q.d - q.b * q.e) / q.c := by
      rw [BoxQuadratic.slopeS]
      field_simp
      ring
    rw [hsN, htN, htD, or_iff_left hcancel, divide_of_testsExactly _ testsExactly_zero, zero_div,
      and_iff_right testsExactly_zero]
    refine ⟨fun h ↦ ?_, fun h ↦ ?_⟩
    · have hex : TestsExactly q.e := by
        by_contra hex
        rw [(divide_of_not_testsExactly hc hex).1] at h
        have hT := BoxQuadratic.bestT_zero_iff.1 h.bestT
        rw [mul_zero, zero_add] at hT
        exact hex (Or.inl (le_antisymm hT (not_lt.1 hneg)))
      rw [divide_of_testsExactly _ hex] at h
      have hS := h.bestS 1 zero_le_one le_rfl
      rw [sub_zero, mul_one, hslope] at hS
      rw [le_div_iff₀ hc, zero_mul] at hS
      exact ⟨hex, sub_nonneg.1 hS⟩
    · obtain ⟨hex, hle⟩ := h
      rw [divide_of_testsExactly _ hex]
      exact {
        s_nonneg := le_rfl
        s_le_one := zero_le_one
        t_nonneg := div_nonneg (not_lt.1 hneg) hc.le
        t_le_one := (div_le_one hc).2 (not_lt.1 hgt)
        bestS := fun s' hs' _ ↦ by
          rw [sub_zero, hslope]
          exact mul_nonneg (div_nonneg (sub_nonneg.2 hle) hc.le) hs'
        bestT := fun t' _ _ ↦ by
          rw [BoxQuadratic.slopeT, mul_zero, sub_zero, mul_div_cancel₀ _ hc.ne', sub_self,
            zero_mul] }

/-! ### The distance -/

section Distance

variable {u0 u v0 v : Vector3 ℝ}

/-- The square of the distance as a function of the two parameters, up to a constant. -/
def squaredDistance (u0 u v0 v : Vector3 ℝ) : BoxQuadratic ℝ :=
  ⟨u ⬝ᵥ u, u ⬝ᵥ v, v ⬝ᵥ v, u ⬝ᵥ (u0 - v0), v ⬝ᵥ (u0 - v0)⟩

theorem parallelity_eq (u v : Vector3 ℝ) : parallelity u v = cross u v ⬝ᵥ cross u v := by
  rw [parallelity, cross_dot_cross, dotProduct_comm v u]

theorem parallelity_nonneg (u v : Vector3 ℝ) : 0 ≤ parallelity u v := by
  rw [parallelity_eq]
  exact Finset.sum_nonneg fun k _ ↦ mul_self_nonneg _

theorem testsExactly_parallelity :
    TestsExactly (parallelity u v) ↔ parallelity u v = 0 ∨ eps ≤ parallelity u v := by
  rw [TestsExactly, abs_of_nonneg (parallelity_nonneg u v)]

/-- On parallel lines every point of the first one is as close to the second one. -/
theorem mul_eq_of_parallelity_eq_zero (w : Vector3 ℝ) (h : parallelity u v = 0) :
    u ⬝ᵥ v * v ⬝ᵥ w = v ⬝ᵥ v * u ⬝ᵥ w := by
  rw [parallelity_eq, dotProduct_self_eq_zero] at h
  have hcross := cross_dot_cross u v v w
  rw [show u ⨯₃ v = 0 from h, zero_dotProduct] at hcross
  rw [mul_comm (v ⬝ᵥ v)]
  exact (sub_eq_zero.1 hcross.symm)

theorem sub_dotProduct_sub (u0 u v0 v : Vector3 ℝ) (s t : ℝ) :
    (u0 + s • u - (v0 + t • v)) ⬝ᵥ (u0 + s • u - (v0 + t • v)) =
      (squaredDistance u0 u v0 v).value s t + (u0 - v0) ⬝ᵥ (u0 - v0) := by
  have hsub : u0 + s • u - (v0 + t • v) = u0 - v0 + s • u - t • v := by abel
  rw [hsub, squaredDistance, BoxQuadratic.value]
  generalize u0 - v0 = w
  simp only [add_dotProduct, sub_dotProduct, dotProduct_add, dotProduct_sub, smul_dotProduct,
    dotProduct_smul, smul_eq_mul]
  rw [dotProduct_comm v u, dotProduct_comm w u, dotProduct_comm w v]
  ring

/-- The distances of two pairs of points are in the order of the values of the function. -/
theorem norm_le_norm_iff (u0 u v0 v : Vector3 ℝ) (s t s' t' : ℝ) :
    Vector3.norm (u0 + s • u - (v0 + t • v)) ≤ Vector3.norm (u0 + s' • u - (v0 + t' • v)) ↔
      (squaredDistance u0 u v0 v).value s t ≤ (squaredDistance u0 u v0 v).value s' t' := by
  have hsqrt (p : Vector3 ℝ) : Vector3.norm p = Real.sqrt (p ⬝ᵥ p) := rfl
  have hnonneg (p : Vector3 ℝ) : 0 ≤ p ⬝ᵥ p := Finset.sum_nonneg fun k _ ↦ mul_self_nonneg (p k)
  rw [hsqrt, hsqrt, Real.sqrt_le_sqrt_iff (hnonneg _), sub_dotProduct_sub, sub_dotProduct_sub,
    add_le_add_iff_right]

theorem onSegment_iff {x : Vector3 ℝ} (hu : u ≠ 0) (s : ℝ) :
    OnSegment x u (x + s • u) ↔ 0 ≤ s ∧ s ≤ 1 := by
  refine ⟨fun ⟨s', hs, hs', h⟩ ↦ ?_, fun h ↦ ⟨s, h.1, h.2, rfl⟩⟩
  rw [smul_left_injective ℝ hu (add_left_cancel h)]
  exact ⟨hs, hs'⟩

/-- The reported points are at the least distance if no change of one of their parameters alone
lowers the distance. -/
theorem reportsMinimum_iff_isStationary (hu : u ≠ 0) (hv : v ≠ 0) :
    ReportsMinimum u0 u v0 v ↔
      (squaredDistance u0 u v0 v).IsStationary (sc u0 u v0 v) (tc u0 u v0 v) := by
  have hiff (hs : 0 ≤ sc u0 u v0 v ∧ sc u0 u v0 v ≤ 1) (ht : 0 ≤ tc u0 u v0 v ∧ tc u0 u v0 v ≤ 1) :=
    BoxQuadratic.isStationary_iff_forall_value_le (q := squaredDistance u0 u v0 v)
      (dotProduct_self_pos hu) (parallelity_nonneg u v) hs.1 hs.2 ht.1 ht.2
  refine ⟨fun h ↦ ?_, fun h ↦ ?_⟩
  · refine (hiff ((onSegment_iff hu _).1 h.cp0_mem) ((onSegment_iff hv _).1 h.cp1_mem)).2 ?_
    exact fun s t hs₀ hs₁ ht₀ ht₁ ↦
      (norm_le_norm_iff ..).1 (h.le _ _ ⟨s, hs₀, hs₁, rfl⟩ ⟨t, ht₀, ht₁, rfl⟩)
  · have hle := (hiff ⟨h.s_nonneg, h.s_le_one⟩ ⟨h.t_nonneg, h.t_le_one⟩).1 h
    exact {
      dist_eq := rfl
      cp0_mem := ⟨_, h.s_nonneg, h.s_le_one, rfl⟩
      cp1_mem := ⟨_, h.t_nonneg, h.t_le_one, rfl⟩
      le := by
        rintro x y ⟨s, hs₀, hs₁, rfl⟩ ⟨t, ht₀, ht₁, rfl⟩
        exact (norm_le_norm_iff ..).2 (hle s t hs₀ hs₁ ht₀ ht₁) }

theorem norm_smul {k : ℝ} (hk : 0 ≤ k) (p : Vector3 ℝ) :
    Vector3.norm (k • p) = k * Vector3.norm p := by
  show Real.sqrt (k • p ⬝ᵥ k • p) = k * Real.sqrt (p ⬝ᵥ p)
  rw [smul_dotProduct, dotProduct_smul, smul_eq_mul, smul_eq_mul, ← mul_assoc,
    Real.sqrt_mul (mul_self_nonneg k), Real.sqrt_mul_self hk]

theorem onSegment_smul_iff {k : ℝ} {x u y : Vector3 ℝ} :
    OnSegment (k • x) (k • u) y ↔ ∃ p, OnSegment x u p ∧ y = k • p := by
  refine ⟨?_, ?_⟩
  · rintro ⟨s, hs₀, hs₁, rfl⟩
    exact ⟨x + s • u, ⟨s, hs₀, hs₁, rfl⟩, by rw [smul_add, smul_comm]⟩
  · rintro ⟨_, ⟨s, hs₀, hs₁, rfl⟩, rfl⟩
    exact ⟨s, hs₀, hs₁, by rw [smul_add, smul_comm]⟩

/-- The least distance of two segments scales with them. -/
theorem segSegDist_smul {k : ℝ} (hk : 0 ≤ k) (h : ReportsMinimum u0 u v0 v)
    (h' : ReportsMinimum (k • u0) (k • u) (k • v0) (k • v)) :
    (segSegDist (k • u0) (k • u) (k • v0) (k • v)).1 = k * (segSegDist u0 u v0 v).1 := by
  refine le_antisymm ?_ ?_
  · rw [h.dist_eq, ← norm_smul hk, smul_sub]
    exact h'.le _ _ (onSegment_smul_iff.2 ⟨_, h.cp0_mem, rfl⟩)
      (onSegment_smul_iff.2 ⟨_, h.cp1_mem, rfl⟩)
  · obtain ⟨x, hx, hcp0⟩ := onSegment_smul_iff.1 h'.cp0_mem
    obtain ⟨y, hy, hcp1⟩ := onSegment_smul_iff.1 h'.cp1_mem
    rw [h'.dist_eq, hcp0, hcp1, ← smul_sub, norm_smul hk]
    exact mul_le_mul_of_nonneg_left (h.le x y hx hy) hk

/-- The tests with the threshold do no harm. The last two take no number for zero that is not, and
the first one does not either, or the pair found for parallel lines is the right one all the same;
or two errors cancel. -/
def TestsAreHarmless (u0 u v0 v : Vector3 ℝ) : Prop :=
  TestsExactly (parameters u0 u v0 v).sN ∧
    (TestsExactly (parameters u0 u v0 v).tN ∧
        (TestsExactly (parallelity u v) ∨ StartIsHarmless (squaredDistance u0 u v0 v)) ∨
      ¬TestsExactly (parallelity u v) ∧ ErrorsCancel (squaredDistance u0 u v0 v))

theorem reportsMinimum_iff_testsAreHarmless (hu : u ≠ 0) (hv : v ≠ 0) :
    ReportsMinimum u0 u v0 v ↔ TestsAreHarmless u0 u v0 v := by
  have ha := dotProduct_self_pos hu
  have hc := dotProduct_self_pos hv
  rw [reportsMinimum_iff_isStationary hu hv, TestsAreHarmless]
  by_cases hex : TestsExactly (parallelity u v)
  · rw [or_iff_left fun h ↦ h.1 hex, and_iff_left (Or.inl hex)]
    exact isStationary_iff_of_testsExactly ha hc (parallelity_nonneg u v)
      (testsExactly_parallelity.1 hex) (mul_eq_of_parallelity_eq_zero _) rfl
  · rw [or_iff_right hex, and_iff_right hex]
    refine isStationary_iff_of_lt ha hc ?_ rfl
    exact not_le.1 (not_or.1 (mt testsExactly_parallelity.2 hex)).2

/-- The least distance is reported if and only if the tests with the threshold do no harm; and when
they do none for the scaled segments either, then the result scales with them. -/
theorem reportsMinimum_iff (hu : u ≠ 0) (hv : v ≠ 0) :
    (ReportsMinimum u0 u v0 v ↔ TestsAreHarmless u0 u v0 v) ∧
    (TestsAreHarmless u0 u v0 v →
      ∀ k : ℝ, 0 < k → TestsAreHarmless (k • u0) (k • u) (k • v0) (k • v) →
        (segSegDist (k • u0) (k • u) (k • v0) (k • v)).1 = k * (segSegDist u0 u v0 v).1) := by
  have hiff : ReportsMinimum u0 u v0 v ↔ TestsAreHarmless u0 u v0 v :=
    reportsMinimum_iff_testsAreHarmless hu hv
  refine ⟨hiff, fun h k hk h' ↦ segSegDist_smul hk.le (hiff.2 h) ?_⟩
  exact (reportsMinimum_iff_testsAreHarmless (smul_ne_zero hk.ne' hu)
    (smul_ne_zero hk.ne' hv)).2 h'

theorem reportsMinimum_skew :
    ReportsMinimum (0 : Vector3 ℝ) ![1, 0, 0] ![0, 0, 1] ![0, 1, 0] := by
  have hu : (![1, 0, 0] : Vector3 ℝ) ≠ 0 := fun h ↦ one_ne_zero (congrFun h 0)
  have hv : (![0, 1, 0] : Vector3 ℝ) ≠ 0 := fun h ↦ one_ne_zero (congrFun h 1)
  refine (reportsMinimum_iff hu hv).1.2 ?_
  have hp : parameters (0 : Vector3 ℝ) ![1, 0, 0] ![0, 0, 1] ![0, 1, 0] = ⟨0, 1, 0, 1⟩ := by
    norm_num [parameters, segmentParameters, lineParameters, eps]
  have hD : parallelity (![1, 0, 0] : Vector3 ℝ) ![0, 1, 0] = 1 := by
    norm_num [parallelity]
  rw [TestsAreHarmless, hp, hD]
  exact ⟨Or.inl rfl, Or.inl ⟨Or.inl rfl, Or.inl (Or.inr (by norm_num [eps]))⟩⟩

/-- Two segments of a millimetre that cross are taken as parallel, and the end of the first one is
reported. -/
theorem not_reportsMinimum_short :
    (![1 / 1000, 0, 0] : Vector3 ℝ) ≠ 0 ∧ (![0, 1 / 1000, 0] : Vector3 ℝ) ≠ 0 ∧
      ¬ReportsMinimum (0 : Vector3 ℝ) ![1 / 1000, 0, 0] ![1 / 2000, -1 / 2000, 0]
        ![0, 1 / 1000, 0] := by
  have hne : (1 / 1000 : ℝ) ≠ 0 := by norm_num
  have hu : (![1 / 1000, 0, 0] : Vector3 ℝ) ≠ 0 := fun h ↦ hne (congrFun h 0)
  have hv : (![0, 1 / 1000, 0] : Vector3 ℝ) ≠ 0 := fun h ↦ hne (congrFun h 1)
  refine ⟨hu, hv, ?_⟩
  have hq : squaredDistance (0 : Vector3 ℝ) ![1 / 1000, 0, 0] ![1 / 2000, -1 / 2000, 0]
      ![0, 1 / 1000, 0] = ⟨1 / 10 ^ 6, 0, 1 / 10 ^ 6, -1 / (2 * 10 ^ 6), 1 / (2 * 10 ^ 6)⟩ := by
    norm_num [squaredDistance]
  have hD : parallelity (![1 / 1000, 0, 0] : Vector3 ℝ) ![0, 1 / 1000, 0] = 1 / 10 ^ 12 := by
    norm_num [parallelity]
  rw [reportsMinimum_iff_testsAreHarmless hu hv, TestsAreHarmless, hq, hD]
  norm_num [TestsExactly, StartIsHarmless, ErrorsCancel, eps]

end Distance

end OpenHRP.SegSegDist
