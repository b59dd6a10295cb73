import OpenHRP.Foundations.Turn
import OpenHRP.Model.RealAngle
import OpenHRP.Model.RealMath
import OpenHRP.Planner.Mobility
import OpenHRP.Planner.RRTTermination

/-!
# The mobility of an omnidirectional robot

`OmniWheel` moves every coordinate at a constant rate. A rotation without bounds goes the shorter
way round, `turn`, whose size is also what the distance is made of: at a ratio of the way, the same
ratio of the distance is covered (`distance_interpolate`).
-/

namespace OpenHRP.PathEngine

open CPi

/-- What the planner reads of a configuration space with `n` degrees of freedom. -/
structure ConfigurationSpace (n : ℕ) (K : Type*) where
  weight : Fin n → K
  unboundedRotation : Fin n → Bool

namespace OmniWheel

section ThetaLimit

variable {K : Type*} [Field K] [LinearOrder K] [CPi K]

theorem two_pi_pos [IsStrictOrderedRing K] : 0 < 2 * (pi : K) :=
  mul_pos two_pos pi_pos

/-- The first loop of `theta_limit`. -/
def thetaLower [IsStrictOrderedRing K] [FloorRing K] (theta : K) : K :=
  if 2 * pi ≤ theta then thetaLower (theta - 2 * pi) else theta
termination_by ⌊theta / (2 * pi)⌋₊
decreasing_by
  next h =>
    have hone : 1 ≤ theta / (2 * pi) := (one_le_div two_pi_pos).2 h
    rw [sub_div, div_self two_pi_pos.ne', Nat.floor_lt (sub_nonneg.2 hone)]
    exact Nat.sub_one_lt_floor _

/-- The second loop of `theta_limit`. -/
def thetaRaise [IsStrictOrderedRing K] [FloorRing K] (theta : K) : K :=
  if theta < 0 then thetaRaise (theta + 2 * pi) else theta
termination_by ⌈-theta / (2 * pi)⌉₊
decreasing_by
  next h =>
    have hpos : 0 < -theta / (2 * pi) := div_pos (neg_pos.2 h) two_pi_pos
    have hceil : ⌈-theta / (2 * pi)⌉₊ - 1 < ⌈-theta / (2 * pi)⌉₊ :=
      Nat.sub_lt (Nat.ceil_pos.2 hpos) one_pos
    refine lt_of_le_of_lt (Nat.ceil_le.2 ?_) hceil
    rw [neg_add, ← sub_eq_add_neg, sub_div, div_self two_pi_pos.ne',
      Nat.cast_pred (Nat.ceil_pos.2 hpos)]
    exact sub_le_sub_right (Nat.le_ceil _) 1

variable [IsStrictOrderedRing K] [FloorRing K]

/-- `theta_limit`. -/
def thetaLimit (theta : K) : K :=
  thetaRaise (thetaLower theta)

variable (theta : K)

theorem thetaLower_spec : SameTurn pi (thetaLower theta) theta ∧ thetaLower theta < 2 * pi := by
  fun_induction thetaLower theta with
  | case1 theta h ih => exact ⟨ih.1.trans ⟨-1, by push_cast; ring⟩, ih.2⟩
  | case2 theta h => exact ⟨.refl _ _, not_le.1 h⟩

theorem thetaRaise_spec (h : theta < 2 * pi) :
    SameTurn pi (thetaRaise theta) theta ∧ 0 ≤ thetaRaise theta ∧ thetaRaise theta < 2 * pi := by
  fun_induction thetaRaise theta with
  | case1 theta hneg ih =>
    obtain ⟨hsame, hmem⟩ := ih (by linarith)
    exact ⟨hsame.trans ⟨1, by push_cast; ring⟩, hmem⟩
  | case2 theta hneg => exact ⟨.refl _ _, not_lt.1 hneg, h⟩

/-- The loops end with the representative between zero and a full turn. -/
theorem thetaLimit_spec :
    SameTurn pi (thetaLimit theta) theta ∧ 0 ≤ thetaLimit theta ∧ thetaLimit theta < 2 * pi := by
  obtain ⟨hsame, hlt⟩ := thetaLower_spec theta
  obtain ⟨hsame', hmem⟩ := thetaRaise_spec (thetaLower theta) hlt
  exact ⟨hsame'.trans hsame, hmem⟩

/-- What `interpolate` makes of it. -/
theorem turn_of_thetaLimit :
    (if pi < thetaLimit theta then thetaLimit theta - 2 * pi else thetaLimit theta) =
      turn pi_pos theta := by
  obtain ⟨hsame, hpos, hlt⟩ := thetaLimit_spec theta
  have hpi := pi_pos (K := K)
  split
  · next h =>
    refine eq_turn pi_pos (hsame.symm.trans ⟨1, by push_cast; ring⟩) (by linarith) (by linarith)
  · next h => exact eq_turn pi_pos hsame.symm (by linarith) (not_lt.1 h)

/-- What `distance` makes of it. -/
theorem abs_turn_of_thetaLimit :
    (if pi < thetaLimit theta then 2 * pi - thetaLimit theta else thetaLimit theta) =
      |turn pi_pos theta| := by
  obtain ⟨-, hpos, hlt⟩ := thetaLimit_spec theta
  rw [← turn_of_thetaLimit]
  split
  · rw [abs_of_neg (by linarith), neg_sub]
  · rw [abs_of_nonneg hpos]

end ThetaLimit

variable {K : Type*} [Field K] [LinearOrder K] [IsStrictOrderedRing K] [FloorRing K] [CPi K] {n : ℕ}
  (cspace : ConfigurationSpace n K)

/-- `OmniWheel::interpolate`. -/
def interpolate (source target : Fin n → K) (ratio : K) : Fin n → K := fun i ↦
  if cspace.unboundedRotation i then
    let dth := target i - source i
    let dth := thetaLimit dth
    let dth := if pi < dth then dth - 2 * pi else dth
    source i + ratio * dth
  else (1 - ratio) * source i + ratio * target i

/-- `OmniWheel::distance`. -/
def distance [CMath K] (source target : Fin n → K) : K :=
  let v := ∑ i,
    let d :=
      if cspace.unboundedRotation i then
        let dth := thetaLimit (target i - source i)
        let dth := if pi < dth then 2 * pi - dth else dth
        cspace.weight i * dth
      else cspace.weight i * (target i - source i)
    d * d
  CMath.sqrt v

/-- The way of a coordinate from one configuration to another. -/
noncomputable def gap (source target : Fin n → K) (i : Fin n) : K :=
  if cspace.unboundedRotation i then turn pi_pos (target i - source i) else target i - source i

variable {cspace} {source target : Fin n → K} {ratio : K}

theorem interpolate_eq (cspace : ConfigurationSpace n K) (source target : Fin n → K) (ratio : K)
    (i : Fin n) :
    interpolate cspace source target ratio i = source i + ratio * gap cspace source target i := by
  rw [interpolate, gap]
  split
  · rw [← turn_of_thetaLimit]
  · ring

theorem distance_eq [CMath K] (cspace : ConfigurationSpace n K) (source target : Fin n → K) :
    distance cspace source target =
      CMath.sqrt (∑ i, (cspace.weight i * |gap cspace source target i|) ^ 2) := by
  rw [distance]
  refine congrArg CMath.sqrt (Finset.sum_congr rfl fun i _ ↦ ?_)
  rw [gap]
  split
  · rw [← abs_turn_of_thetaLimit, sq]
  · rw [mul_pow, sq_abs, ← mul_pow, sq]

/-- The coordinates differ by the gap, up to full turns of the rotations without bounds. -/
theorem gap_same (cspace : ConfigurationSpace n K) (source target : Fin n → K) (i : Fin n)
    (hi : cspace.unboundedRotation i = true) :
    SameTurn pi (target i - source i) (gap cspace source target i) := by
  rw [gap, if_pos hi]
  exact sameTurn_turn _ _

theorem abs_gap_comm (i : Fin n) :
    |gap cspace target source i| = |gap cspace source target i| := by
  rw [gap, gap]
  split
  · rw [← neg_sub, abs_turn_neg]
  · exact abs_sub_comm _ _

/-- The distance does not depend on the direction. -/
theorem distance_comm [CMath K] (cspace : ConfigurationSpace n K) (source target : Fin n → K) :
    distance cspace target source = distance cspace source target := by
  simp only [distance_eq, abs_gap_comm]

/-- A coordinate that is a part of the gap away has that part of the gap to go. -/
theorem abs_gap_of_part {part : K} (hpos : 0 ≤ part) (hle : part ≤ 1) {a b : Fin n → K} {i : Fin n}
    (hab : if cspace.unboundedRotation i then
        SameTurn pi (b i - a i) (part * gap cspace source target i)
      else b i - a i = part * gap cspace source target i) :
    |gap cspace a b i| = part * |gap cspace source target i| := by
  rw [gap]
  split
  · next hi =>
    rw [if_pos hi] at hab
    have hgap : |gap cspace source target i| ≤ (pi : K) := by
      rw [gap, if_pos hi]
      exact abs_turn_le _ _
    have hsize : |part * gap cspace source target i| ≤ (pi : K) := by
      rw [abs_mul, abs_of_nonneg hpos]
      exact (mul_le_of_le_one_left (abs_nonneg _) hle).trans hgap
    rw [hab.turn_eq, abs_turn_of_abs_le pi_pos hsize, abs_mul, abs_of_nonneg hpos]
  · next hi =>
    rw [if_neg hi] at hab
    rw [hab, abs_mul, abs_of_nonneg hpos]

/-- After a ratio of the way, this ratio of each gap is behind. -/
theorem abs_gap_source_interpolate (hpos : 0 ≤ ratio) (hle : ratio ≤ 1) (i : Fin n) :
    |gap cspace source (interpolate cspace source target ratio) i| =
      ratio * |gap cspace source target i| := by
  refine abs_gap_of_part hpos hle ?_
  rw [interpolate_eq, add_sub_cancel_left]
  split
  · exact .refl _ _
  · rfl

/-- After a ratio of the way, the rest is left of each gap. -/
theorem abs_gap_interpolate (hpos : 0 ≤ ratio) (hle : ratio ≤ 1) (i : Fin n) :
    |gap cspace (interpolate cspace source target ratio) target i| =
      (1 - ratio) * |gap cspace source target i| := by
  refine abs_gap_of_part (sub_nonneg.2 hle) (by linarith) ?_
  rw [interpolate_eq]
  split
  · next hi =>
    obtain ⟨k, hk⟩ := gap_same cspace source target i hi
    exact ⟨k, by linear_combination hk⟩
  · next hi =>
    rw [gap, if_neg hi]
    ring

/-! ### The distance that a ratio of the way covers -/

section Exact

variable {cspace : ConfigurationSpace n ℝ} {source target : Fin n → ℝ} {ratio : ℝ}

/-- Distances are in the ratio that all gaps are in. -/
theorem distance_of_part {part : ℝ} (hpos : 0 ≤ part) {a b : Fin n → ℝ}
    (hab : ∀ i, |gap cspace a b i| = part * |gap cspace source target i|) :
    distance cspace a b = part * distance cspace source target := by
  have hsum : ∑ i, (cspace.weight i * |gap cspace a b i|) ^ 2 =
      part ^ 2 * ∑ i, (cspace.weight i * |gap cspace source target i|) ^ 2 := by
    rw [Finset.mul_sum]
    refine Finset.sum_congr rfl fun i _ ↦ ?_
    rw [hab]
    ring
  rw [distance_eq, distance_eq, hsum]
  exact (Real.sqrt_mul (sq_nonneg _) _).trans (congrArg (· * _) (Real.sqrt_sq hpos))

theorem distance_source_interpolate (hpos : 0 ≤ ratio) (hle : ratio ≤ 1) :
    distance cspace source (interpolate cspace source target ratio) =
      ratio * distance cspace source target :=
  distance_of_part hpos fun i ↦ abs_gap_source_interpolate hpos hle i

theorem distance_interpolate (hpos : 0 ≤ ratio) (hle : ratio ≤ 1) :
    distance cspace (interpolate cspace source target ratio) target =
      (1 - ratio) * distance cspace source target :=
  distance_of_part (sub_nonneg.2 hle) fun i ↦ abs_gap_interpolate hpos hle i

end Exact

/-- A planner for an omnidirectional robot. -/
def planner [CMath K] (cspace : ConfigurationSpace n K) (interpolationDistance : K)
    (collides isValid : (Fin n → K) → Bool) (random : ℕ → Fin n → K) :
    PathPlanner (Fin n → K) K where
  mobility := sampledMobility (distance cspace) (interpolate cspace) interpolationDistance collides
  checkCollision := collides
  isValid := isValid
  random := random

theorem isUniform_planner (cspace : ConfigurationSpace n ℝ) (interpolationDistance : ℝ)
    (collides isValid : (Fin n → ℝ) → Bool) (random : ℕ → Fin n → ℝ) :
    (planner cspace interpolationDistance collides isValid random).mobility.IsUniform :=
  fun _ _ _ ↦ distance_interpolate

/-- **The loop of an extension ends.** In every configuration space, each advance of `connect` adds
a node that is closer to the target by `eps` than the nearest one was, and after finitely many of
them the tree has arrived or is trapped. No step is longer than the distance to the target, for
which `extend` would wait for a key. -/
theorem connect_ends (cspace : ConfigurationSpace n ℝ) (interpolationDistance : ℝ)
    (collides isValid : (Fin n → ℝ) → Bool) (random : ℕ → Fin n → ℝ) (s : RRT (Fin n → ℝ) ℝ)
    (tree : RoadmapPtr) (target : Fin n → ℝ) (reverse : Bool) (heps : 0 < s.eps)
    (htree : ∀ node ∈ (s.heap.roadmap tree).nodes, node < s.heap.size) :
    let p := planner cspace interpolationDistance collides isValid random
    (∀ s₁ s₂, Relation.ReflTransGen (RRT.Advances p tree target reverse) s s₁ →
      RRT.Advances p tree target reverse s₁ s₂ → ∃ minNode min node,
        s₁.heap.findNearestNode (distance cspace) tree target = some (minNode, min) ∧
        (s₂.heap.roadmap tree).nodes = (s₁.heap.roadmap tree).nodes ++ [node] ∧
        distance cspace (s₂.heap.position node) target ≤ min - s.eps) ∧
    (∀ source, s.eps < distance cspace source target →
      distance cspace source
          (interpolate cspace source target (s.eps / distance cspace source target)) ≤
        distance cspace source target) ∧
    ∃ N s' r, (r = .reached ∨ r = .trapped) ∧
      ∀ fuel, N ≤ fuel → s.connect p fuel tree target reverse = .ok (s', r) := by
  intro p
  have hm : p.mobility.IsUniform :=
    isUniform_planner cspace interpolationDistance collides isValid random
  refine ⟨?_, fun source hfar ↦ ?_, ?_⟩
  · intro s₁ s₂ hreach hstep
    obtain ⟨heq, halloc⟩ := RRT.Allocated.of_advances hm heps htree hreach
    obtain ⟨-, -, minNode, min, node, hnear, hnodes, hdist⟩ :=
      RRT.exists_of_advances hm (heq ▸ heps) halloc hstep
    exact ⟨minNode, min, node, hnear, hnodes, (heq ▸ hdist).le⟩
  · have hpos : 0 < distance cspace source target := heps.trans hfar
    rw [distance_source_interpolate (div_nonneg heps.le hpos.le) ((div_le_one hpos).2 hfar.le),
      div_mul_cancel₀ _ hpos.ne']
    exact hfar.le
  · obtain ⟨N, s', r, hr, hrun⟩ := RRT.exists_connect_returns hm heps htree target reverse
    refine ⟨N, s', r, ?_, hrun⟩
    cases r with
    | reached => exact .inl rfl
    | trapped => exact .inr rfl
    | advanced => exact absurd rfl hr

/-- A wheel that turns without bounds. -/
def wheel : ConfigurationSpace 1 ℝ where
  weight _ := 1
  unboundedRotation _ := true

theorem connect_ends_wheel :
    let p := planner wheel 1 (fun _ ↦ false) (fun _ ↦ true) (fun _ _ ↦ 2)
    let s : RRT (Fin 1 → ℝ) ℝ := (RRT.new (fun _ ↦ 0) 1 1).plant
    (∀ s₁ s₂, Relation.ReflTransGen (RRT.Advances p 0 (fun _ ↦ 3) false) s s₁ →
      RRT.Advances p 0 (fun _ ↦ 3) false s₁ s₂ → ∃ minNode min node,
        s₁.heap.findNearestNode (distance wheel) 0 (fun _ ↦ 3) = some (minNode, min) ∧
        (s₂.heap.roadmap 0).nodes = (s₁.heap.roadmap 0).nodes ++ [node] ∧
        distance wheel (s₂.heap.position node) (fun _ ↦ 3) ≤ min - s.eps) ∧
    (∀ source, s.eps < distance wheel source (fun _ ↦ 3) →
      distance wheel source
          (interpolate wheel source (fun _ ↦ 3) (s.eps / distance wheel source fun _ ↦ 3)) ≤
        distance wheel source fun _ ↦ 3) ∧
    ∃ N s' r, (r = .reached ∨ r = .trapped) ∧
      ∀ fuel, N ≤ fuel → s.connect p fuel 0 (fun _ ↦ 3) false = .ok (s', r) :=
  connect_ends wheel 1 (fun _ ↦ false) (fun _ ↦ true) (fun _ _ ↦ 2)
    (RRT.new (fun _ ↦ 0) 1 1).plant 0 (fun _ ↦ 3) false one_pos (by decide)

/-! ### The way back -/

/-- Two configurations are the same up to full turns of the rotations without bounds. -/
def SameUpToTurns (cspace : ConfigurationSpace n K) (a b : Fin n → K) : Prop :=
  ∀ i, if cspace.unboundedRotation i then SameTurn pi (a i) (b i) else a i = b i

/-- A collision check that does not see full turns of the rotations without bounds. -/
def Periodic (cspace : ConfigurationSpace n K) (collides : (Fin n → K) → Bool) : Prop :=
  ∀ a b, SameUpToTurns cspace a b → collides a = collides b

omit [IsStrictOrderedRing K] [FloorRing K] in
theorem SameUpToTurns.refl (cspace : ConfigurationSpace n K) (a : Fin n → K) :
    SameUpToTurns cspace a a := by
  intro i
  split
  · exact .refl _ _
  · rfl

/-- A number is the same as its opposite up to full turns only when its double is. -/
theorem not_sameTurn_of_between {r : K} (hpos : 0 < r) (hlt : r < 1) (k : ℤ) :
    r * pi ≠ (1 - r) * pi - pi + k * (2 * pi) := by
  intro h
  have hr : r = k := by
    have hpi := (pi_pos (K := K)).ne'
    field_simp at h
    linarith
  rw [hr] at hpos hlt
  have hk : 0 < k := by exact_mod_cast hpos
  have hk' : k < 1 := by exact_mod_cast hlt
  omega

/-- Opposite ratios of the two ways are at the same place unless a rotation makes half a turn. -/
theorem sameUpToTurns_interpolate_iff (hpos : 0 < ratio) (hlt : ratio < 1) :
    SameUpToTurns cspace (interpolate cspace target source ratio)
        (interpolate cspace source target (1 - ratio)) ↔
      ∀ i, cspace.unboundedRotation i = true → turn pi_pos (target i - source i) ≠ (pi : K) := by
  have hgap : ∀ i, cspace.unboundedRotation i = true → gap cspace source target i =
      turn pi_pos (target i - source i) := fun i hi ↦ if_pos hi
  refine forall_congr' fun i ↦ ?_
  rw [interpolate_eq, interpolate_eq]
  split
  · next hi =>
    obtain ⟨k, hk⟩ := gap_same cspace source target i hi
    rcases eq_or_ne (gap cspace source target i) pi with hhalf | hshort
    · -- both ways turn the same way, so they part
      have hback : gap cspace target source i = pi := by
        rw [gap, if_pos hi, ← neg_sub]
        exact turn_neg_of_half _ ((hgap i hi).symm.trans hhalf)
      rw [hback, hhalf]
      refine iff_of_false ?_ fun h ↦ h hi ((hgap i hi).symm.trans hhalf)
      rintro ⟨l, hl⟩
      refine not_sameTurn_of_between hpos hlt (l - k) ?_
      rw [hhalf] at hk
      push_cast
      linear_combination hl - hk
    · have hback : gap cspace target source i = -gap cspace source target i := by
        rw [gap, if_pos hi, ← neg_sub, hgap i hi]
        exact turn_neg _ (by rwa [← hgap i hi])
      rw [hback]
      exact iff_of_true ⟨k, by linear_combination hk⟩ fun _ ↦ by rwa [← hgap i hi]
  · next hi =>
    refine iff_of_true ?_ fun h ↦ absurd h hi
    rw [gap, gap, if_neg hi, if_neg hi]
    ring

theorem pieces_comm [CMath K] (cspace : ConfigurationSpace n K) (interpolationDistance : K)
    (source target : Fin n → K) :
    pieces (distance cspace) interpolationDistance target source =
      pieces (distance cspace) interpolationDistance source target := by
  rw [pieces, pieces, distance_comm]

/-- The way back has the samples of the way there exactly when they are sampled at their ends only,
or no rotation without bounds makes half a turn. -/
theorem forall₂_getPath_iff [CMath K] (cspace : ConfigurationSpace n K) (interpolationDistance : K)
    (source target : Fin n → K) :
    List.Forall₂ (SameUpToTurns cspace)
        (getPath (distance cspace) (interpolate cspace) interpolationDistance target source)
        (getPath (distance cspace) (interpolate cspace) interpolationDistance source
          target).reverse ↔
      distance cspace source target / interpolationDistance < 1 ∨
        ∀ i, cspace.unboundedRotation i = true → turn pi_pos (target i - source i) ≠ (pi : K) := by
  obtain ⟨N, hN⟩ : ∃ N, pieces (distance cspace) interpolationDistance source target = N := ⟨_, rfl⟩
  rw [forall₂_getPath_reverse_iff (.refl _ _) (.refl _ _) hN
    ((pieces_comm cspace interpolationDistance source target).trans hN), ← Nat.floor_eq_zero]
  rw [pieces] at hN
  have hratio : ∀ i : ℕ, 0 < i → i < N → (0 : K) < i / N ∧ (i / N : K) < 1 ∧
      (((N - i : ℕ) : K) / N) = 1 - i / N := by
    intro i hpos hlt
    have hNpos : (0 : K) < N := Nat.cast_pos.2 (hpos.trans hlt)
    refine ⟨div_pos (Nat.cast_pos.2 hpos) hNpos, (div_lt_one hNpos).2 (Nat.cast_lt.2 hlt), ?_⟩
    rw [Nat.cast_sub hlt.le, sub_div, div_self hNpos.ne']
  constructor
  · intro h
    refine or_iff_not_imp_left.2 fun hcut ↦ ?_
    obtain ⟨hpos, hlt, hrest⟩ := hratio 1 one_pos (by omega)
    have hone := h 1 one_pos (by omega)
    rw [hrest] at hone
    exact (sameUpToTurns_interpolate_iff hpos hlt).1 hone
  · rintro (hcut | hshort) i hi hiN
    · omega
    · obtain ⟨hpos, hlt, hrest⟩ := hratio i hi hiN
      rw [hrest]
      exact (sameUpToTurns_interpolate_iff hpos hlt).2 hshort

/-- Ways with the same samples in opposite orders are open together, for a collision check that does
not see full turns. -/
theorem isReachable_comm [CMath K] {interpolationDistance : K} {collides : (Fin n → K) → Bool}
    (hcollides : Periodic cspace collides)
    (h : List.Forall₂ (SameUpToTurns cspace)
      (getPath (distance cspace) (interpolate cspace) interpolationDistance target source)
      (getPath (distance cspace) (interpolate cspace) interpolationDistance source
        target).reverse) :
    isReachable (distance cspace) (interpolate cspace) interpolationDistance collides source target
        true =
      isReachable (distance cspace) (interpolate cspace) interpolationDistance collides
        target source
        true := by
  obtain ⟨N, hN⟩ : ∃ N, pieces (distance cspace) interpolationDistance source target = N := ⟨_, rfl⟩
  have hback := (pieces_comm cspace interpolationDistance source target).trans hN
  rw [forall₂_getPath_reverse_iff (.refl _ _) (.refl _ _) hN hback] at h
  rw [Bool.eq_iff_iff, isReachable_iff_sample, isReachable_iff_sample, hN, hback]
  constructor
  · intro hopen i hpos hlt
    rw [hcollides _ _ (h i hpos hlt)]
    exact hopen (N - i) (by omega) (by omega)
  · intro hopen i hpos hlt
    have hi := hcollides _ _ (h (N - i) (by omega) (by omega))
    rw [Nat.sub_sub_self hlt.le] at hi
    rw [← hi]
    exact hopen (N - i) (by omega) (by omega)

/-- **When a motion is reversible.** The way back has the samples of the way there in reverse order,
up to full turns, and is open together with it, exactly when the way is too short to be sampled
between its ends or no rotation without bounds makes an odd number of half turns. -/
theorem reversible_iff (cspace : ConfigurationSpace n ℝ) (interpolationDistance : ℝ)
    (a b : Fin n → ℝ) :
    (List.Forall₂ (SameUpToTurns cspace)
        (getPath (distance cspace) (interpolate cspace) interpolationDistance b a)
        (getPath (distance cspace) (interpolate cspace) interpolationDistance a b).reverse ∧
      ∀ collides, Periodic cspace collides →
        isReachable (distance cspace) (interpolate cspace) interpolationDistance collides a b true =
          isReachable (distance cspace) (interpolate cspace) interpolationDistance collides b a
            true) ↔
      distance cspace a b / interpolationDistance < 1 ∨
        ∀ i, cspace.unboundedRotation i = true → ∀ k : ℤ, b i - a i ≠ (2 * k + 1) * Real.pi := by
  rw [and_iff_left_of_imp fun h collides hcollides ↦ isReachable_comm hcollides h,
    forall₂_getPath_iff]
  refine or_congr_right (forall_congr' fun i ↦ imp_congr_right fun _ ↦ ?_)
  rw [Ne, turn_eq_half_iff, not_exists]
  rfl

theorem gap_wheel (source target : Fin 1 → ℝ) :
    gap wheel source target 0 = turn pi_pos (target 0 - source 0) :=
  if_pos rfl

/-- Half a turn of the wheel, in steps as long as that: the way there is sampled at a quarter, the
way back at three quarters, and only one of them is open when the wheel must not stand at a
quarter. -/
theorem not_reversible_wheel :
    let path := getPath (distance wheel) (interpolate wheel) Real.pi
    let collides : (Fin 1 → ℝ) → Bool := fun q ↦ decide (Real.sin (q 0) = 1)
    let isReachable := isReachable (distance wheel) (interpolate wheel) Real.pi collides
    let a : Fin 1 → ℝ := fun _ ↦ 0
    let b : Fin 1 → ℝ := fun _ ↦ Real.pi
    ¬ List.Forall₂ (SameUpToTurns wheel) (path b a) (path a b).reverse ∧
      Periodic wheel collides ∧ isReachable a b true = false ∧ isReachable b a true = true := by
  intro path collides isReach a b
  have hturn : turn pi_pos (b 0 - a 0) = (pi : ℝ) :=
    (turn_eq_half_iff pi_pos).2 ⟨0, by simp [a, b, pi]⟩
  have hback : turn pi_pos (a 0 - b 0) = (pi : ℝ) := by
    rw [← neg_sub, turn_neg_of_half _ hturn]
  have hdistance : distance wheel a b = Real.pi := by
    rw [distance_eq, Fin.sum_univ_one, gap_wheel, hturn, wheel, one_mul, sq_abs]
    exact Real.sqrt_sq Real.pi_pos.le
  have hpieces : pieces (distance wheel) Real.pi a b = 2 := by
    rw [pieces, hdistance, div_self Real.pi_pos.ne', Nat.floor_one]
  have hreach : ∀ source target, pieces (distance wheel) Real.pi source target = 2 →
      (isReach source target true = true ↔
        Real.sin (interpolate wheel source target (1 / 2) 0) ≠ 1) := by
    intro source target htwo
    rw [isReachable_iff_sample, htwo]
    refine ⟨fun h ↦ by simpa [collides] using h 1 one_pos one_lt_two, fun h i hpos hlt ↦ ?_⟩
    obtain rfl : i = 1 := by omega
    simpa [collides] using h
  have hquarter : interpolate wheel a b (1 / 2) 0 = Real.pi / 2 := by
    rw [interpolate_eq, gap_wheel, hturn]
    simp only [a, pi]
    ring
  have hthree : interpolate wheel b a (1 / 2) 0 = Real.pi / 2 + Real.pi := by
    rw [interpolate_eq, gap_wheel, hback]
    simp only [b, pi]
    ring
  refine ⟨?_, ?_, ?_, ?_⟩
  · rw [forall₂_getPath_iff, hdistance, div_self Real.pi_pos.ne', not_or]
    exact ⟨lt_irrefl _, fun h ↦ h 0 rfl hturn⟩
  · intro q₁ q₂ h
    obtain ⟨k, hk⟩ : SameTurn pi (q₁ 0) (q₂ 0) := h 0
    simp only [collides, hk, pi, Real.sin_add_int_mul_two_pi]
  · rw [← Bool.not_eq_true, hreach a b hpieces, hquarter, Real.sin_pi_div_two]
    exact fun h ↦ h rfl
  · rw [hreach b a ((pieces_comm _ _ _ _).trans hpieces), hthree, Real.sin_add_pi,
      Real.sin_pi_div_two]
    norm_num

end OmniWheel

end OpenHRP.PathEngine
