import OpenHRP.Planner.OmniWheel

/-!
# The turn-go-turn mobility

`TGT` turns on the spot until it faces its goal, goes there in a straight line, and turns on the
spot again. A configuration is a point of the plane with a heading. The distance is the sum of the
three lengths, and `interpolate` says where the robot is when it has covered a ratio of it:
`turn_first`, `go_straight` and `turn_last` say how far that is, phase by phase.

When there is nothing to turn in the end, the last phase has no length, and its beginning, which is
also the end of the motion, is computed by a division by zero.
-/

namespace OpenHRP.PathEngine.TGT

open CPi CAngle

/-- Why `TGT::interpolate` gives no configuration. -/
inductive Failure
  | divisionByZero
  /-- It calls `abort`. -/
  | invalidRatio
  deriving DecidableEq

section Definitions

variable {K : Type*} [Field K] [LinearOrder K] [CPi K] [CAngle K] [CMath K]

/-- `theta_diff`. -/
def thetaDiff (source target : K) : K :=
  let diff := target - source
  if pi < diff then diff - 2 * pi
  else if diff < -pi then diff + 2 * pi
  else diff

/-- A quotient, if there is one. -/
def quotient (x y : K) : Except Failure K :=
  if y = 0 then .error .divisionByZero else .ok (x / y)

variable (cspace : ConfigurationSpace 3 K) (source target : Fin 3 → K)

/-- `TGT::interpolate`. -/
def interpolate (ratio : K) : Except Failure (Fin 3 → K) :=
  let dx := target 0 - source 0
  let dy := target 1 - source 1
  if dx = 0 ∧ dy = 0 then
    let dth := thetaDiff (source 2) (target 2)
    .ok ![source 0, source 1, source 2 + ratio * dth]
  else
    let theta := atan2 dy dx
    let dth1 := thetaDiff (source 2) theta
    let d1 := cspace.weight 2 * |dth1|
    let dx := dx * cspace.weight 0
    let dy := dy * cspace.weight 1
    let d2 := CMath.sqrt (dx * dx + dy * dy)
    let dth2 := thetaDiff theta (target 2)
    let d3 := cspace.weight 2 * |dth2|
    let d := d1 + d2 + d3
    if d = 0 then .ok source
    else if 0 ≤ ratio ∧ ratio * d < d1 then
      (quotient (ratio * d) d1).map fun r ↦ ![source 0, source 1, source 2 + r * dth1]
    else if d1 ≤ ratio * d ∧ ratio * d < d1 + d2 then
      (quotient (ratio * d - d1) d2).map fun r ↦
        ![(1 - r) * source 0 + r * target 0, (1 - r) * source 1 + r * target 1, theta]
    else if d1 + d2 ≤ ratio * d ∧ ratio ≤ 1 then
      (quotient (ratio * d - d1 - d2) d3).map fun r ↦ ![target 0, target 1, theta + r * dth2]
    else .error .invalidRatio

/-- `TGT::distance`. -/
def distance : K :=
  let dx := target 0 - source 0
  let dy := target 1 - source 1
  let theta := atan2 dy dx
  let dx := dx * cspace.weight 0
  let dy := dy * cspace.weight 1
  if dx = 0 ∧ dy = 0 then cspace.weight 2 * |thetaDiff (source 2) (target 2)|
  else
    let dth1 := |thetaDiff (source 2) theta|
    let dth1 := dth1 * cspace.weight 2
    let dth2 := |thetaDiff theta (target 2)|
    let dth2 := dth2 * cspace.weight 2
    CMath.sqrt (dx * dx + dy * dy) + dth1 + dth2

/-- Two configurations at one point, with headings that differ by full turns. -/
def SamePose (a b : Fin 3 → K) : Prop :=
  a 0 = b 0 ∧ a 1 = b 1 ∧ SameTurn pi (a 2) (b 2)

end Definitions

theorem map_quotient_of_ne {K α : Type*} [Field K] [LinearOrder K] {y : K} (h : y ≠ 0) (x : K)
    (f : K → α) : (quotient x y).map f = .ok (f (x / y)) := by
  rw [quotient, if_neg h]
  rfl

section ThetaDiff

variable {K : Type*} [Field K] [LinearOrder K] [IsStrictOrderedRing K] [CPi K] {source target : K}

/-- Up to one and a half turns, the difference of two headings is the shorter way round. -/
theorem thetaDiff_spec (h : |target - source| ≤ 3 * pi) :
    SameTurn pi (thetaDiff source target) (target - source) ∧ |thetaDiff source target| ≤ pi := by
  obtain ⟨hlo, hhi⟩ := abs_le.1 h
  rw [thetaDiff]
  split
  · next hlt => exact ⟨⟨-1, by push_cast; ring⟩, abs_le.2 ⟨by linarith, by linarith⟩⟩
  · next hle =>
    split
    · next hlt => exact ⟨⟨1, by push_cast; ring⟩, abs_le.2 ⟨by linarith, by linarith⟩⟩
    · next hge => exact ⟨.refl _ _, abs_le.2 ⟨not_lt.1 hge, not_lt.1 hle⟩⟩

omit [IsStrictOrderedRing K] in
theorem thetaDiff_add [IsOrderedAddMonoid K] (source : K) {x : K} (h : |x| ≤ pi) :
    thetaDiff source (source + x) = x := by
  obtain ⟨hlo, hhi⟩ := abs_le.1 h
  rw [thetaDiff, add_sub_cancel_left, if_neg (not_lt.2 hhi), if_neg (not_lt.2 hlo)]

theorem thetaDiff_self (theta : K) : thetaDiff theta theta = 0 := by
  have h := thetaDiff_add theta (by rw [abs_zero]; exact pi_pos.le : |(0 : K)| ≤ pi)
  rwa [add_zero] at h

/-- There is nothing to turn only between headings that differ by full turns. -/
theorem thetaDiff_eq_zero_iff (h : |target - source| ≤ 3 * pi) :
    thetaDiff source target = 0 ↔ SameTurn pi target source := by
  obtain ⟨⟨k, hk⟩, hsize⟩ := thetaDiff_spec h
  constructor
  · intro hzero
    exact ⟨-k, by push_cast; linear_combination hzero - hk⟩
  · rintro ⟨l, hl⟩
    have hpi := pi_pos (K := K)
    have heq : thetaDiff source target = (l + k : ℤ) * (2 * pi) := by
      push_cast
      linear_combination hk + hl
    -- a multiple of a full turn that is at most half a turn
    have hlt : |((l + k : ℤ) : K)| < 1 := by
      rw [heq, abs_mul, abs_of_pos (by linarith : (0 : K) < 2 * pi)] at hsize
      by_contra hge
      have := mul_le_mul_of_nonneg_right (not_lt.1 hge) (by linarith : (0 : K) ≤ 2 * pi)
      linarith
    have hint : l + k = 0 := Int.abs_lt_one_iff.1 (by exact_mod_cast hlt)
    rw [heq, hint, Int.cast_zero, zero_mul]

theorem sameTurn_add_thetaDiff (h : |target - source| ≤ 3 * pi) :
    SameTurn pi (source + thetaDiff source target) target := by
  have hsame := (thetaDiff_spec h).1.add_left source
  rwa [add_sub_cancel] at hsame

end ThetaDiff

section Exact

variable {cspace : ConfigurationSpace 3 ℝ} {source target cfg : Fin 3 → ℝ} {ratio part : ℝ}

/-- The direction of travel. -/
noncomputable def heading (source target : Fin 3 → ℝ) : ℝ :=
  atan2 (target 1 - source 1) (target 0 - source 0)

/-- The length of the straight way. -/
noncomputable def straight (cspace : ConfigurationSpace 3 ℝ) (source target : Fin 3 → ℝ) : ℝ :=
  √((target 0 - source 0) * cspace.weight 0 * ((target 0 - source 0) * cspace.weight 0) +
    (target 1 - source 1) * cspace.weight 1 * ((target 1 - source 1) * cspace.weight 1))

/-- The length of a turn on the spot. -/
noncomputable def spin (cspace : ConfigurationSpace 3 ℝ) (a b : ℝ) : ℝ :=
  cspace.weight 2 * |thetaDiff a b|

/-- Two configurations at one point. -/
def Still (source target : Fin 3 → ℝ) : Prop :=
  target 0 - source 0 = 0 ∧ target 1 - source 1 = 0

theorem weighted_eq_zero_iff (hweight : ∀ i, 0 < cspace.weight i) (x : ℝ) (i : Fin 3) :
    x * cspace.weight i = 0 ↔ x = 0 :=
  mul_eq_zero_iff_right (hweight i).ne'

theorem distance_of_still (hweight : ∀ i, 0 < cspace.weight i) (h : Still source target) :
    distance cspace source target = spin cspace (source 2) (target 2) :=
  if_pos ⟨(weighted_eq_zero_iff hweight _ _).2 h.1, (weighted_eq_zero_iff hweight _ _).2 h.2⟩

theorem distance_of_moving (hweight : ∀ i, 0 < cspace.weight i) (h : ¬ Still source target) :
    distance cspace source target = spin cspace (source 2) (heading source target) +
      straight cspace source target + spin cspace (heading source target) (target 2) := by
  rw [distance, if_neg (by rwa [weighted_eq_zero_iff hweight, weighted_eq_zero_iff hweight])]
  change straight cspace source target + |thetaDiff (source 2) (heading source target)| *
    cspace.weight 2 + |thetaDiff (heading source target) (target 2)| * cspace.weight 2 = _
  rw [spin, spin]
  ring

theorem straight_pos (hweight : ∀ i, 0 < cspace.weight i) (h : ¬ Still source target) :
    0 < straight cspace source target := by
  refine Real.sqrt_pos.2 (lt_of_le_of_ne (add_nonneg (mul_self_nonneg _) (mul_self_nonneg _)) ?_)
  intro hzero
  obtain ⟨hx, hy⟩ :=
    (add_eq_zero_iff_of_nonneg (mul_self_nonneg _) (mul_self_nonneg _)).1 hzero.symm
  exact h ⟨(weighted_eq_zero_iff hweight _ 0).1 (mul_self_eq_zero.1 hx),
    (weighted_eq_zero_iff hweight _ 1).1 (mul_self_eq_zero.1 hy)⟩

theorem spin_nonneg (hweight : ∀ i, 0 < cspace.weight i) (a b : ℝ) : 0 ≤ spin cspace a b :=
  mul_nonneg (hweight 2).le (abs_nonneg _)

/-- The heading is the same on every part of the way. -/
theorem heading_of_part (hpart : 0 < part) (hx : cfg 0 - source 0 = part * (target 0 - source 0))
    (hy : cfg 1 - source 1 = part * (target 1 - source 1)) :
    heading source cfg = heading source target := by
  have h := Complex.arg_real_mul ⟨target 0 - source 0, target 1 - source 1⟩ hpart
  rw [heading, heading, hx, hy]
  refine Eq.trans (congrArg Complex.arg ?_) h
  apply Complex.ext <;> simp

theorem straight_of_part (hpart : 0 ≤ part) (hx : cfg 0 - source 0 = part * (target 0 - source 0))
    (hy : cfg 1 - source 1 = part * (target 1 - source 1)) :
    straight cspace source cfg = part * straight cspace source target := by
  rw [straight, straight, hx, hy, ← Real.sqrt_sq hpart, ← Real.sqrt_mul (sq_nonneg _),
    Real.sqrt_sq hpart]
  congr 1
  ring

/-! ### The three phases -/

/-- A turn on the spot is as long as its angle. -/
theorem turn_first (hweight : ∀ i, 0 < cspace.weight i) {x : ℝ} (hx : |x| ≤ Real.pi) :
    distance cspace source ![source 0, source 1, source 2 + x] = cspace.weight 2 * |x| := by
  have hstill : Still source ![source 0, source 1, source 2 + x] := ⟨sub_self _, sub_self _⟩
  rw [distance_of_still hweight hstill]
  exact congrArg (cspace.weight 2 * |·|) (thetaDiff_add _ hx)

/-- Part of the straight way comes after the first turn. -/
theorem go_straight (hweight : ∀ i, 0 < cspace.weight i) (hmoving : ¬ Still source target)
    (hpart : 0 ≤ part) :
    distance cspace source ![(1 - part) * source 0 + part * target 0,
        (1 - part) * source 1 + part * target 1, heading source target] =
      spin cspace (source 2) (heading source target) + part * straight cspace source target := by
  generalize hcfg : ![(1 - part) * source 0 + part * target 0,
    (1 - part) * source 1 + part * target 1, heading source target] = cfg
  have hx : cfg 0 - source 0 = part * (target 0 - source 0) := by
    rw [← hcfg]
    simp only [Matrix.cons_val_zero]
    ring
  have hy : cfg 1 - source 1 = part * (target 1 - source 1) := by
    rw [← hcfg]
    simp only [Matrix.cons_val_one, Matrix.cons_val_zero]
    ring
  have htheta : cfg 2 = heading source target := by
    rw [← hcfg]
    rfl
  rcases hpart.eq_or_lt with hzero | hpos
  · have hstill : Still source cfg := by
      rw [Still, hx, hy, ← hzero]
      simp
    rw [distance_of_still hweight hstill, htheta, ← hzero, zero_mul, add_zero]
  · have hmoving' : ¬ Still source cfg := by
      rw [Still, hx, hy, mul_eq_zero_iff_left hpos.ne', mul_eq_zero_iff_left hpos.ne']
      exact hmoving
    rw [distance_of_moving hweight hmoving', heading_of_part hpos hx hy,
      straight_of_part hpos.le hx hy, htheta, spin, spin, thetaDiff_self]
    simp

/-- The last turn comes after the straight way. -/
theorem turn_last (hweight : ∀ i, 0 < cspace.weight i) (hmoving : ¬ Still source target) {x : ℝ}
    (hx : |x| ≤ Real.pi) :
    distance cspace source ![target 0, target 1, heading source target + x] =
      spin cspace (source 2) (heading source target) + straight cspace source target +
        cspace.weight 2 * |x| := by
  have hmoving' : ¬ Still source ![target 0, target 1, heading source target + x] := hmoving
  rw [distance_of_moving hweight hmoving']
  exact congrArg (_ + cspace.weight 2 * |·|) (thetaDiff_add _ hx)

/-! ### Interpolation -/

/-- What `interpolate` should give. -/
structure Covers (cspace : ConfigurationSpace 3 ℝ) (source target : Fin 3 → ℝ) (ratio : ℝ)
    (cfg : Fin 3 → ℝ) : Prop where
  eq_ok : interpolate cspace source target ratio = .ok cfg
  start : ratio = 0 → SamePose cfg source
  finish : ratio = 1 → SamePose cfg target
  distance : distance cspace source cfg = ratio * distance cspace source target

/-- The turns of a motion between headings within one turn are the shorter ways round. -/
structure Faces (source target : Fin 3 → ℝ) : Prop where
  source : 0 ≤ source 2 ∧ source 2 < 2 * Real.pi
  target : 0 ≤ target 2 ∧ target 2 < 2 * Real.pi

theorem Faces.between (h : Faces source target) : |target 2 - source 2| ≤ 3 * Real.pi :=
  abs_le.2 ⟨by linarith [h.source.2, h.target.1, Real.pi_pos],
    by linarith [h.source.1, h.target.2, Real.pi_pos]⟩

theorem Faces.first (h : Faces source target) :
    |heading source target - source 2| ≤ 3 * Real.pi := by
  have hlo : -Real.pi < heading source target := Complex.neg_pi_lt_arg _
  have hhi : heading source target ≤ Real.pi := Complex.arg_le_pi _
  exact abs_le.2 ⟨by linarith [h.source.2], by linarith [h.source.1, Real.pi_pos]⟩

theorem Faces.last (h : Faces source target) :
    |target 2 - heading source target| ≤ 3 * Real.pi := by
  have hlo : -Real.pi < heading source target := Complex.neg_pi_lt_arg _
  have hhi : heading source target ≤ Real.pi := Complex.arg_le_pi _
  exact abs_le.2 ⟨by linarith [h.target.1, Real.pi_pos], by linarith [h.target.2]⟩

/-- A part of the shorter way round is at most half a turn. -/
theorem abs_part_le (cspace : ConfigurationSpace 3 ℝ) {a b : ℝ} (h : |b - a| ≤ 3 * Real.pi)
    (hpart : 0 ≤ part) (hle : part ≤ 1) :
    |part * thetaDiff a b| ≤ Real.pi ∧
      cspace.weight 2 * |part * thetaDiff a b| = part * spin cspace a b := by
  rw [abs_mul, abs_of_nonneg hpart, spin]
  exact ⟨(mul_le_of_le_one_left (abs_nonneg _) hle).trans (thetaDiff_spec h).2, by ring⟩

theorem spin_eq_zero_iff (hweight : ∀ i, 0 < cspace.weight i) {a b : ℝ}
    (h : |b - a| ≤ 3 * Real.pi) : spin cspace a b = 0 ↔ SameTurn Real.pi b a := by
  rw [spin, mul_eq_zero_iff_left (hweight 2).ne', abs_eq_zero]
  exact thetaDiff_eq_zero_iff h

theorem covers_still (hweight : ∀ i, 0 < cspace.weight i) (h : Faces source target)
    (hpos : 0 ≤ ratio) (hle : ratio ≤ 1) (hstill : Still source target) :
    Covers cspace source target ratio
      ![source 0, source 1, source 2 + ratio * thetaDiff (source 2) (target 2)] where
  eq_ok := if_pos hstill
  start hzero := ⟨rfl, rfl, by simpa [hzero] using SameTurn.refl _ _⟩
  finish hone := by
    refine ⟨(sub_eq_zero.1 hstill.1).symm, (sub_eq_zero.1 hstill.2).symm, ?_⟩
    simpa [hone] using sameTurn_add_thetaDiff h.between
  distance := by
    obtain ⟨hsize, hspin⟩ := abs_part_le cspace h.between hpos hle
    rw [turn_first hweight hsize, hspin, distance_of_still hweight hstill]

/-- The motion of a robot that is not at its goal, phase by phase. -/
theorem interpolate_of_moving (hweight : ∀ i, 0 < cspace.weight i)
    (hmoving : ¬ Still source target) (hpos : 0 ≤ ratio) (hle : ratio ≤ 1) :
    let theta := heading source target
    let d1 := spin cspace (source 2) theta
    let d2 := straight cspace source target
    let d3 := spin cspace theta (target 2)
    interpolate cspace source target ratio =
      if ratio * (d1 + d2 + d3) < d1 then
        (quotient (ratio * (d1 + d2 + d3)) d1).map fun r ↦
          ![source 0, source 1, source 2 + r * thetaDiff (source 2) theta]
      else if ratio * (d1 + d2 + d3) < d1 + d2 then
        (quotient (ratio * (d1 + d2 + d3) - d1) d2).map fun r ↦
          ![(1 - r) * source 0 + r * target 0, (1 - r) * source 1 + r * target 1, theta]
      else
        (quotient (ratio * (d1 + d2 + d3) - d1 - d2) d3).map fun r ↦
          ![target 0, target 1, theta + r * thetaDiff theta (target 2)] := by
  intro theta d1 d2 d3
  have hd1 : 0 ≤ d1 := spin_nonneg hweight _ _
  have hd2 : 0 < d2 := straight_pos hweight hmoving
  have hd3 : 0 ≤ d3 := spin_nonneg hweight _ _
  have hd : d1 + d2 + d3 ≠ 0 := by linarith
  rw [interpolate]
  refine (if_neg hmoving).trans ((if_neg hd).trans ?_)
  rcases lt_or_ge (ratio * (d1 + d2 + d3)) d1 with hfirst | hfirst
  · rw [if_pos hfirst]
    exact if_pos ⟨hpos, hfirst⟩
  · rw [if_neg (not_lt.2 hfirst)]
    rcases lt_or_ge (ratio * (d1 + d2 + d3)) (d1 + d2) with hgo | hgo
    · rw [if_pos hgo]
      exact (if_neg fun h ↦ not_lt.2 hfirst h.2).trans (if_pos ⟨hfirst, hgo⟩)
    · rw [if_neg (not_lt.2 hgo)]
      exact (if_neg fun h ↦ not_lt.2 hfirst h.2).trans
        ((if_neg fun h ↦ not_lt.2 hgo h.2).trans (if_pos ⟨hgo, hle⟩))

section Moving

variable (hweight : ∀ i, 0 < cspace.weight i) (h : Faces source target)
  (hmoving : ¬ Still source target) (hpos : 0 ≤ ratio) (hle : ratio ≤ 1)

include hweight h hmoving hpos hle

theorem covers_first (hfirst : ratio * distance cspace source target <
      spin cspace (source 2) (heading source target)) :
    ∃ cfg, Covers cspace source target ratio cfg := by
  have hdistance := distance_of_moving hweight hmoving
  have hd2 := straight_pos hweight hmoving
  have hd3 := spin_nonneg hweight (heading source target) (target 2)
  set d1 := spin cspace (source 2) (heading source target) with hd1
  have hdpos : 0 ≤ distance cspace source target := by
    rw [hdistance]
    have := spin_nonneg hweight (source 2) (heading source target)
    linarith
  have hd1pos : 0 < d1 := (mul_nonneg hpos hdpos).trans_lt hfirst
  have hpart : 0 ≤ ratio * distance cspace source target / d1 :=
    div_nonneg (mul_nonneg hpos hdpos) hd1pos.le
  obtain ⟨hsize, hspin⟩ := abs_part_le cspace h.first hpart ((div_le_one hd1pos).2 hfirst.le)
  refine ⟨![source 0, source 1, source 2 + ratio * distance cspace source target / d1 *
    thetaDiff (source 2) (heading source target)], ⟨?_, ?_, ?_, ?_⟩⟩
  · rw [interpolate_of_moving hweight hmoving hpos hle, ← hd1, ← hdistance, if_pos hfirst,
      map_quotient_of_ne hd1pos.ne']
  · intro hzero
    exact ⟨rfl, rfl, by simpa [hzero] using SameTurn.refl _ _⟩
  · intro hone
    rw [hone, one_mul, hdistance] at hfirst
    linarith
  · rw [turn_first hweight hsize, hspin, ← hd1, div_mul_cancel₀ _ hd1pos.ne']

theorem covers_straight
    (hfirst : spin cspace (source 2) (heading source target) ≤
      ratio * distance cspace source target)
    (hgo : ratio * distance cspace source target <
      spin cspace (source 2) (heading source target) + straight cspace source target) :
    ∃ cfg, Covers cspace source target ratio cfg := by
  have hdistance := distance_of_moving hweight hmoving
  have hd2 := straight_pos hweight hmoving
  have hd3 := spin_nonneg hweight (heading source target) (target 2)
  set d1 := spin cspace (source 2) (heading source target) with hd1
  set d2 := straight cspace source target with hd2'
  set r := (ratio * distance cspace source target - d1) / d2 with hr
  have hpart : 0 ≤ r := div_nonneg (sub_nonneg.2 hfirst) hd2.le
  refine ⟨![(1 - r) * source 0 + r * target 0, (1 - r) * source 1 + r * target 1,
    heading source target], ⟨?_, ?_, ?_, ?_⟩⟩
  · rw [interpolate_of_moving hweight hmoving hpos hle, ← hd1, ← hd2', ← hdistance,
      if_neg (not_lt.2 hfirst), if_pos hgo, map_quotient_of_ne hd2.ne']
  · intro hzero
    rw [hzero, zero_mul] at hfirst
    have hd1zero : d1 = 0 := hfirst.antisymm (spin_nonneg hweight _ _)
    have hrzero : r = 0 := by rw [hr, hzero, hd1zero, zero_mul, sub_zero, zero_div]
    refine ⟨by simp [hrzero], by simp [hrzero], ?_⟩
    exact (spin_eq_zero_iff hweight h.first).1 hd1zero
  · intro hone
    rw [hone, one_mul, hdistance] at hgo
    linarith
  · rw [go_straight hweight hmoving hpart, ← hd1, ← hd2', hr, div_mul_cancel₀ _ hd2.ne']
    ring

theorem covers_last
    (hgo : spin cspace (source 2) (heading source target) + straight cspace source target ≤
      ratio * distance cspace source target)
    (hlast : spin cspace (heading source target) (target 2) ≠ 0) :
    ∃ cfg, Covers cspace source target ratio cfg := by
  have hdistance := distance_of_moving hweight hmoving
  have hd1pos := spin_nonneg hweight (source 2) (heading source target)
  have hd2 := straight_pos hweight hmoving
  have hd3 := (spin_nonneg hweight (heading source target) (target 2)).lt_of_ne' hlast
  set d1 := spin cspace (source 2) (heading source target) with hd1
  set d2 := straight cspace source target with hd2'
  set d3 := spin cspace (heading source target) (target 2) with hd3'
  set r := (ratio * distance cspace source target - d1 - d2) / d3 with hr
  have hpart : 0 ≤ r := div_nonneg (by linarith) hd3.le
  have hwhole : ratio * distance cspace source target ≤ d1 + d2 + d3 := by
    rw [hdistance]
    exact mul_le_of_le_one_left (by linarith) hle
  obtain ⟨hsize, hspin⟩ := abs_part_le cspace h.last hpart ((div_le_one hd3).2 (by linarith))
  refine ⟨![target 0, target 1, heading source target +
    r * thetaDiff (heading source target) (target 2)], ⟨?_, ?_, ?_, ?_⟩⟩
  · rw [interpolate_of_moving hweight hmoving hpos hle, ← hd1, ← hd2', ← hd3', ← hdistance,
      if_neg (by linarith), if_neg (not_lt.2 hgo), map_quotient_of_ne hd3.ne']
  · intro hzero
    rw [hzero, zero_mul] at hgo
    linarith
  · intro hone
    have hrone : r = 1 := by
      rw [hr, hone, one_mul, hdistance, div_eq_one_iff_eq hd3.ne']
      ring
    exact ⟨rfl, rfl, by simpa [hrone] using sameTurn_add_thetaDiff h.last⟩
  · rw [turn_last hweight hmoving hsize, hspin, ← hd1, ← hd2', ← hd3', hr,
      div_mul_cancel₀ _ hd3.ne']
    ring

omit h in
/-- The end of a motion without a last turn. -/
theorem interpolate_eq_error
    (hgo : spin cspace (source 2) (heading source target) + straight cspace source target ≤
      ratio * distance cspace source target)
    (hlast : spin cspace (heading source target) (target 2) = 0) :
    interpolate cspace source target ratio = .error .divisionByZero := by
  have hd2 := straight_pos hweight hmoving
  rw [distance_of_moving hweight hmoving] at hgo
  rw [interpolate_of_moving hweight hmoving hpos hle, if_neg (by linarith), if_neg (not_lt.2 hgo),
    quotient, if_pos hlast]
  rfl

end Moving

/-- **When a turn-go-turn motion has constant speed.** Between headings within one turn, with
positive weights and a ratio from zero to one, `interpolate` gives the ends of the motion at the
ends of the ratio, and in between the ratio covers its part of the distance, exactly unless it is
asked for the end of a motion whose goal is elsewhere and faces along the way. -/
theorem interpolate_spec_iff (cspace : ConfigurationSpace 3 ℝ) (source target : Fin 3 → ℝ)
    (ratio : ℝ)
    (hweight : ∀ i, 0 < cspace.weight i) (hsource : 0 ≤ source 2 ∧ source 2 < 2 * Real.pi)
    (htarget : 0 ≤ target 2 ∧ target 2 < 2 * Real.pi) (hratio : 0 ≤ ratio ∧ ratio ≤ 1) :
    (∃ cfg, interpolate cspace source target ratio = .ok cfg ∧
        (ratio = 0 → SamePose cfg source) ∧ (ratio = 1 → SamePose cfg target) ∧
        distance cspace source cfg = ratio * distance cspace source target) ↔
      ¬ (ratio = 1 ∧ (target 0 ≠ source 0 ∨ target 1 ≠ source 1) ∧
        SameTurn Real.pi (target 2)
          (Complex.arg ⟨target 0 - source 0, target 1 - source 1⟩)) := by
  have h : Faces source target := ⟨hsource, htarget⟩
  have hcovers : (∃ cfg, Covers cspace source target ratio cfg) → ∃ cfg,
      interpolate cspace source target ratio = .ok cfg ∧ (ratio = 0 → SamePose cfg source) ∧
        (ratio = 1 → SamePose cfg target) ∧
        distance cspace source cfg = ratio * distance cspace source target :=
    fun ⟨cfg, hcfg⟩ ↦ ⟨cfg, hcfg.eq_ok, hcfg.start, hcfg.finish, hcfg.distance⟩
  have hmoved : ¬ Still source target ↔ target 0 ≠ source 0 ∨ target 1 ≠ source 1 := by
    rw [Still, sub_eq_zero, sub_eq_zero, not_and_or]
  constructor
  · rintro ⟨cfg, hok, -⟩ ⟨rfl, hgoal, hface⟩
    have hlast : spin cspace (heading source target) (target 2) = 0 :=
      (spin_eq_zero_iff hweight h.last).2 hface
    rw [interpolate_eq_error hweight (hmoved.2 hgoal) zero_le_one le_rfl ?_ hlast] at hok
    · cases hok
    · rw [distance_of_moving hweight (hmoved.2 hgoal), hlast]
      linarith
  · intro hnot
    refine hcovers ?_
    by_cases hstill : Still source target
    · exact ⟨_, covers_still hweight h hratio.1 hratio.2 hstill⟩
    · rcases lt_or_ge (ratio * distance cspace source target)
        (spin cspace (source 2) (heading source target)) with hfirst | hfirst
      · exact covers_first hweight h hstill hratio.1 hratio.2 hfirst
      · rcases lt_or_ge (ratio * distance cspace source target)
          (spin cspace (source 2) (heading source target) + straight cspace source target)
          with hgo | hgo
        · exact covers_straight hweight h hstill hratio.1 hratio.2 hfirst hgo
        · refine covers_last hweight h hstill hratio.1 hratio.2 hgo fun hlast ↦ hnot ⟨?_, ?_, ?_⟩
          · -- without a last turn, only the whole ratio leads there
            rw [distance_of_moving hweight hstill, hlast, add_zero] at hgo
            have hd : 0 < spin cspace (source 2) (heading source target) +
                straight cspace source target :=
              add_pos_of_nonneg_of_pos (spin_nonneg hweight _ _) (straight_pos hweight hstill)
            exact hratio.2.antisymm (le_of_mul_le_mul_right (by rwa [one_mul]) hd)
          · exact hmoved.1 hstill
          · exact (spin_eq_zero_iff hweight h.last).1 hlast

/-- The plane with equal weights. -/
def plane : ConfigurationSpace 3 ℝ where
  weight _ := 1
  unboundedRotation i := i = 2

theorem interpolate_spec_plane : ∃ cfg, interpolate plane ![0, 0, 0] ![1, 0, 1] (1 / 2) = .ok cfg ∧
    ((1 / 2 : ℝ) = 0 → SamePose cfg ![0, 0, 0]) ∧ ((1 / 2 : ℝ) = 1 → SamePose cfg ![1, 0, 1]) ∧
    distance plane ![0, 0, 0] cfg = 1 / 2 * distance plane ![0, 0, 0] ![1, 0, 1] :=
  (interpolate_spec_iff plane ![0, 0, 0] ![1, 0, 1] (1 / 2) (fun _ ↦ one_pos)
    ⟨le_rfl, Real.two_pi_pos⟩ ⟨zero_le_one, by change (1 : ℝ) < _; linarith [Real.two_le_pi]⟩
    ⟨by norm_num, by norm_num⟩).2 fun h ↦ by norm_num at h

/-- The end of a straight way to a goal that faces along it. -/
theorem not_interpolate_plane :
    interpolate plane ![0, 0, 0] ![1, 0, 0] 1 = .error .divisionByZero := by
  have hweight : ∀ i, 0 < plane.weight i := fun _ ↦ one_pos
  have hmoving : ¬ Still ![0, 0, 0] ![(1 : ℝ), 0, 0] := fun h ↦ by
    have hx : (1 : ℝ) - 0 = 0 := h.1
    norm_num at hx
  have htheta : heading ![0, 0, 0] ![(1 : ℝ), 0, 0] = 0 := by
    have harg : heading ![0, 0, 0] ![(1 : ℝ), 0, 0] = Complex.arg 1 := by
      refine congrArg Complex.arg ?_
      apply Complex.ext <;> simp
    rw [harg, Complex.arg_one]
  have hspin : spin plane 0 0 = 0 := by simp [spin, thetaDiff_self]
  refine interpolate_eq_error hweight hmoving zero_le_one le_rfl ?_ (by rw [htheta]; exact hspin)
  rw [distance_of_moving hweight hmoving, one_mul, htheta]
  exact le_add_of_nonneg_right hspin.ge

end Exact

end OpenHRP.PathEngine.TGT
