import OpenHRP.Foundations.Rounding
import OpenHRP.Planner.Mobility
import Mathlib.Data.Rat.Floor

/-!
# Random shortcuts

`RandomShortcutOptimizer::optimize` draws two different segments of a path and a point on each of
them, and leaves out what lies between the points when one is reachable from the other.

The segment that a draw chooses is its ratio to `RAND_MAX` times the number of segments, computed in
`float` and cut to an `int` (`scaledIndex`). For up to `2 ^ 24` segments this is the number of
segments itself, which is no segment, exactly for the 64 largest draws (`scaledIndex_lt_iff`): these
are rounded to `RAND_MAX`, which is rounded to `2 ^ 31`. The points are on segments whose samples
were free of collisions, but they need not be samples. `keepsValid_iff` says that there is nothing
else to fear.
-/

namespace OpenHRP.PathEngine.RandomShortcutOptimizer

/-! ### The draws -/

/-- `RAND_MAX` of the C library. -/
def randMax : ℕ :=
  2 ^ 31 - 1

/-- A value of `random()`. -/
abbrev Draw := {draw : ℕ // draw ≤ randMax}

/-- The nearest `float`. -/
def toFloat (q : ℚ) : ℚ :=
  roundBits 24 q

/-- `((float)random())/RAND_MAX*nSegment`, cut to an `int`. -/
def scaledIndex (draw : Draw) (nSegment : ℕ) : ℕ :=
  ⌊toFloat (toFloat (toFloat draw.1 / toFloat randMax) * toFloat nSegment)⌋₊

theorem toFloat_eq {m : ℕ} (hm : m < 2 ^ 24) (e : ℤ) : toFloat (m * 2 ^ e) = m * 2 ^ e :=
  roundBits_eq (by norm_num) hm e

theorem toFloat_two_zpow (e : ℤ) : toFloat (2 ^ e) = 2 ^ e := by
  simpa using toFloat_eq (m := 1) (by norm_num) e

theorem toFloat_one : toFloat 1 = 1 :=
  toFloat_two_zpow 0

theorem toFloat_natCast {n : ℕ} (hn : n ≤ 2 ^ 24) : toFloat n = n := by
  rcases hn.lt_or_eq with hlt | rfl
  · simpa using toFloat_eq hlt 0
  · exact_mod_cast toFloat_two_zpow 24

/-- From `2 ^ 30` on, neighbouring floats are 128 apart. -/
theorem ulp_of_ge {draw : ℕ} (hge : 2 ^ 30 ≤ draw) (hlt : draw < 2 ^ 31) :
    ulp 24 (draw : ℚ) = 128 := by
  have hlog : Nat.log 2 draw = 30 := Nat.log_eq_of_pow_le_of_lt_pow hge hlt
  rw [ulp, Int.log_natCast, hlog]
  norm_num

/-- The largest draws, `RAND_MAX` among them, are rounded to `2 ^ 31`. -/
theorem toFloat_of_ge {draw : ℕ} (hle : draw ≤ randMax) (hge : 2 ^ 31 - 64 ≤ draw) :
    toFloat draw = 2 ^ 31 := by
  rw [randMax] at hle
  have hge' : (2 ^ 31 : ℚ) ≤ draw + 64 := by exact_mod_cast (show 2 ^ 31 ≤ draw + 64 by omega)
  have hle' : (draw : ℚ) ≤ 2 ^ 31 := by exact_mod_cast (show draw ≤ 2 ^ 31 by omega)
  have hpos : (0 : ℚ) < draw := Nat.cast_pos.2 (by omega)
  refine le_antisymm ?_ ?_
  · have h := roundBits_le (p := 24) (m := 1) (e := 31) hpos (by norm_num)
      (by rw [Nat.cast_one, one_mul]; exact_mod_cast hle')
    rw [Nat.cast_one, one_mul] at h
    exact_mod_cast h
  · -- half of the distance of floats below an even multiple of it
    have hround : (2 ^ 24 : ℤ) ≤ roundEven ((draw : ℚ) / 128) := by
      refine le_roundEven_of_even (by norm_num) ?_
      push_cast
      linarith
    have hround' : (2 ^ 24 : ℚ) ≤ roundEven ((draw : ℚ) / 128) := by exact_mod_cast hround
    rw [toFloat, roundBits, ulp_of_ge (by omega) (by omega)]
    linarith

/-- The other draws are rounded to less. -/
theorem toFloat_le {draw : ℕ} (hlt : draw < 2 ^ 31 - 64) :
    toFloat draw ≤ 2 ^ 31 - 128 := by
  rcases Nat.eq_zero_or_pos draw with rfl | hpos
  · rw [Nat.cast_zero, toFloat, roundBits_zero]
    norm_num
  rcases Nat.lt_or_ge (2 ^ 31 - 128) draw with hgt | hle
  · have hlt' : (draw : ℚ) + 64 < 2 ^ 31 := by exact_mod_cast (show draw + 64 < 2 ^ 31 by omega)
    have hround := (abs_le.1 (abs_roundEven_sub_le ((draw : ℚ) / 128))).2
    have hround' : ((roundEven ((draw : ℚ) / 128) : ℤ) : ℚ) < ((2 ^ 24 : ℤ) : ℚ) := by
      push_cast
      linarith
    have hbelow : ((roundEven ((draw : ℚ) / 128) : ℤ) : ℚ) ≤ ((2 ^ 24 - 1 : ℤ) : ℚ) :=
      Int.cast_le.2 (Int.le_sub_one_of_lt (Int.cast_lt.1 hround'))
    push_cast at hbelow
    rw [toFloat, roundBits, ulp_of_ge (by omega) (by omega)]
    linarith
  · have hle' : (draw : ℚ) + 128 ≤ 2 ^ 31 := by exact_mod_cast (show draw + 128 ≤ 2 ^ 31 by omega)
    have heq : ((2 ^ 24 - 1 : ℕ) : ℚ) * 2 ^ (7 : ℤ) = 2 ^ 31 - 128 := by norm_num
    have h := roundBits_le (p := 24) (q := (draw : ℚ)) (m := 2 ^ 24 - 1) (e := 7)
      (Nat.cast_pos.2 hpos) (by norm_num) (by rw [heq]; linarith)
    rwa [heq] at h

/-- A draw chooses a segment, up to `2 ^ 24` of them, unless it is one of the 64 largest. -/
theorem scaledIndex_lt_iff {draw : Draw} {nSegment : ℕ} (hpos : 0 < nSegment)
    (hle : nSegment ≤ 2 ^ 24) : scaledIndex draw nSegment < nSegment ↔ draw.1 < 2 ^ 31 - 64 := by
  have hmax : toFloat randMax = 2 ^ 31 := toFloat_of_ge le_rfl (by rw [randMax]; norm_num)
  rw [scaledIndex, hmax, toFloat_natCast hle]
  constructor
  · intro h
    by_contra hge
    rw [toFloat_of_ge draw.2 (Nat.le_of_not_lt hge), div_self (by norm_num), toFloat_one, one_mul,
      toFloat_natCast hle, Nat.floor_natCast] at h
    exact lt_irrefl _ h
  · intro hlt
    have hn : (0 : ℚ) < nSegment := Nat.cast_pos.2 hpos
    rw [Nat.floor_lt' hpos.ne']
    rcases Nat.eq_zero_or_pos draw.1 with hzero | hdraw
    · have hfloat : toFloat 0 = 0 := roundBits_zero 24
      rwa [hzero, Nat.cast_zero, hfloat, zero_div, hfloat, zero_mul, hfloat]
    · -- the ratio is at most the number before one
      have hlow : (1 : ℕ) * 2 ^ (0 : ℤ) ≤ toFloat draw.1 :=
        le_roundBits (Nat.cast_pos.2 hdraw) (by norm_num) (by norm_num)
          (by rw [zpow_zero, mul_one]; exact Nat.cast_le.2 hdraw)
      rw [Nat.cast_one, zpow_zero, mul_one] at hlow
      have hratio0 : 0 < toFloat draw.1 / 2 ^ 31 := by positivity
      have hratio : toFloat draw.1 / 2 ^ 31 ≤ (2 ^ 24 - 1 : ℕ) * 2 ^ (-24 : ℤ) := by
        rw [div_le_iff₀ (by norm_num)]
        refine (toFloat_le hlt).trans ?_
        norm_num
      have hround : toFloat (toFloat draw.1 / 2 ^ 31) ≤ 1 - 1 / 2 ^ 24 := by
        refine (roundBits_le hratio0 (by norm_num) hratio).trans ?_
        norm_num
      have hround0 : 0 < toFloat (toFloat draw.1 / 2 ^ 31) := by
        have h := le_roundBits (p := 24) (m := 1) (e := -31) hratio0 (by norm_num) (by norm_num)
          (by rw [Nat.cast_one, one_mul, zpow_neg, le_div_iff₀ (by norm_num)]; norm_num; exact hlow)
        exact lt_of_lt_of_le (by norm_num) h
      calc toFloat (toFloat (toFloat draw.1 / 2 ^ 31) * nSegment)
          ≤ toFloat (toFloat draw.1 / 2 ^ 31) * nSegment * (1 + 1 / 2 ^ 24) :=
            roundBits_le_mul (mul_pos hround0 hn)
        _ ≤ (1 - 1 / 2 ^ 24) * nSegment * (1 + 1 / 2 ^ 24) := by gcongr
        _ < nSegment := by linarith

/-! ### The optimizer -/

/-- Why a call does not return. -/
inductive Fault
  /-- A configuration behind the end of the path is read. -/
  | outOfRange
  /-- The loop for the second segment is still running after the draws it was given. -/
  | outOfFuel
  deriving DecidableEq

section Segments

variable {C K : Type*} (mobility : Mobility C K) (random : ℕ → Draw) (path : List C)

/-- The point at a ratio of the segment with an index. -/
def pointOn (index : ℕ) (r : K) : Except Fault C :=
  match path[index]?, path[index + 1]? with
  | some a, some b => .ok (mobility.interpolate a b r)
  | _, _ => .error .outOfRange

/-- The loop for the second segment, from the draw `k` on: the segment, and the draw after it. -/
def drawOther (nSegment index1 : ℕ) : ℕ → ℕ → Except Fault (ℕ × ℕ)
  | 0, _ => .error .outOfFuel
  | fuel + 1, k =>
    let index2 := scaledIndex (random k) nSegment
    if index1 = index2 then drawOther nSegment index1 fuel (k + 1) else .ok (index2, k + 1)

/-- The path without what lies between a point of one segment and a point of a later one, when the
second point is reachable from the first. -/
def shortcut (index1 index2 : ℕ) (ratio1 ratio2 : K) : Except Fault (List C) :=
  match pointOn mobility path index1 ratio1, pointOn mobility path index2 ratio2 with
  | .ok cfg1, .ok cfg2 =>
    if mobility.isReachable cfg1 cfg2 then
      .ok (path.take (index1 + 1) ++ [cfg1, cfg2] ++ path.drop (index2 + 1))
    else .ok path
  | _, _ => .error .outOfRange

variable {mobility random path} {index index1 index2 : ℕ} {ratio1 ratio2 : K}

/-- The first draw and draw `k + 1` are for different segments, and no draw between them is. -/
def FirstOther (random : ℕ → Draw) (nSegment k : ℕ) : Prop :=
  (∀ i < k, scaledIndex (random 0) nSegment = scaledIndex (random (i + 1)) nSegment) ∧
    scaledIndex (random 0) nSegment ≠ scaledIndex (random (k + 1)) nSegment

theorem drawOther_of_firstOther {nSegment k : ℕ} (h : FirstOther random nSegment k) {j fuel : ℕ}
    (hj : j ≤ k) (hfuel : k - j < fuel) :
    drawOther random nSegment (scaledIndex (random 0) nSegment) fuel (j + 1) =
      .ok (scaledIndex (random (k + 1)) nSegment, k + 2) := by
  induction fuel generalizing j with
  | zero => omega
  | succ fuel ih =>
    rw [drawOther]
    rcases hj.lt_or_eq with hlt | rfl
    · rw [if_pos (h.1 j hlt)]
      exact ih hlt (by omega)
    · rw [if_neg h.2]

theorem drawOther_of_same {nSegment index1 j fuel : ℕ}
    (h : ∀ i < fuel, index1 = scaledIndex (random (j + i)) nSegment) :
    drawOther random nSegment index1 fuel j = .error .outOfFuel := by
  induction fuel generalizing j with
  | zero => rfl
  | succ fuel ih =>
    have hfirst : index1 = scaledIndex (random j) nSegment := h 0 fuel.succ_pos
    rw [drawOther, if_pos hfirst]
    refine ih fun i hi ↦ ?_
    rw [Nat.add_right_comm]
    exact h (i + 1) (Nat.succ_lt_succ hi)

theorem pointOn_of_lt (mobility : Mobility C K) (h : index < path.length - 1) (r : K) :
    ∃ cfg, pointOn mobility path index r = .ok cfg := by
  rw [pointOn, List.getElem?_eq_getElem (by omega), List.getElem?_eq_getElem (by omega)]
  exact ⟨_, rfl⟩

theorem pointOn_of_ge (mobility : Mobility C K) (h : path.length - 1 ≤ index) (r : K) :
    pointOn mobility path index r = .error .outOfRange := by
  rw [pointOn, List.getElem?_eq_none (l := path) (i := index + 1) (by omega)]
  split
  · next heq => cases heq
  · rfl

theorem shortcut_of_lt {cfg1 cfg2 : C} (hcfg1 : pointOn mobility path index1 ratio1 = .ok cfg1)
    (hcfg2 : pointOn mobility path index2 ratio2 = .ok cfg2) :
    shortcut mobility path index1 index2 ratio1 ratio2 =
      if mobility.isReachable cfg1 cfg2 then
        .ok (path.take (index1 + 1) ++ [cfg1, cfg2] ++ path.drop (index2 + 1))
      else .ok path := by
  rw [shortcut, hcfg1, hcfg2]

theorem shortcut_of_ge (h : path.length - 1 ≤ index2) :
    shortcut mobility path index1 index2 ratio1 ratio2 = .error .outOfRange := by
  rw [shortcut, pointOn_of_ge mobility h]
  split
  · next heq => cases heq
  · rfl

/-- A shortcut between two segments keeps the ends. -/
theorem ends_take_drop {a b : C} (h1 : index1 < path.length - 1) (h2 : index2 < path.length - 1) :
    (path.take (index1 + 1) ++ [a, b] ++ path.drop (index2 + 1)).head? = path.head? ∧
      (path.take (index1 + 1) ++ [a, b] ++ path.drop (index2 + 1)).getLast? = path.getLast? := by
  constructor
  · cases path with
    | nil => simp at h1
    | cons q path => rfl
  · rw [List.getLast?_append, List.getLast?_drop, if_neg (by omega)]
    cases hlast : path.getLast? with
    | none =>
      rw [List.getLast?_eq_none_iff.1 hlast] at h1
      simp at h1
    | some q => rfl

/-- A path without collisions each step of which is possible. -/
structure Valid (mobility : Mobility C K) (collides : C → Bool) (path : List C) : Prop where
  free : ∀ q ∈ path, collides q = false
  chain : path.IsChain fun a b ↦ mobility.isReachable a b = true

end Segments

section Optimize

variable {C K : Type*} [Field K] (mobility : Mobility C K) (random : ℕ → Draw) (path : List C)

/-- `((double)random())/RAND_MAX`. -/
def ratio (draw : Draw) : K :=
  draw.1 / randMax

/-- `RandomShortcutOptimizer::optimize`. -/
def optimize (fuel : ℕ) : Except Fault (List C) :=
  if path.length < 3 then .ok path
  else
    let nSegment := path.length - 1
    let index1 := scaledIndex (random 0) nSegment
    match drawOther random nSegment index1 fuel 1 with
    | .error e => .error e
    | .ok (index2, k) =>
      let (index1, index2) := if index2 < index1 then (index2, index1) else (index1, index2)
      shortcut mobility path index1 index2 (ratio (random k)) (ratio (random (k + 1)))

/-- With these draws the optimizer reads the path only where it has configurations, keeps its ends,
and makes no collision of a valid path. -/
structure KeepsValid (mobility : Mobility C K) (collides : C → Bool) (random : ℕ → Draw)
    (path : List C) : Prop where
  inRange : ∀ fuel, optimize mobility random path fuel ≠ .error .outOfRange
  ends : ∀ fuel out, optimize mobility random path fuel = .ok out →
    out.head? = path.head? ∧ out.getLast? = path.getLast?
  free : Valid mobility collides path → ∀ fuel out, optimize mobility random path fuel = .ok out →
    ∀ q ∈ out, collides q = false

variable {mobility random path} {collides : C → Bool}

theorem optimize_of_firstOther (mobility : Mobility C K) {k fuel : ℕ} (h : 3 ≤ path.length)
    (hk : FirstOther random (path.length - 1) k) (hfuel : k < fuel) :
    optimize mobility random path fuel = shortcut mobility path
      (min (scaledIndex (random 0) (path.length - 1))
        (scaledIndex (random (k + 1)) (path.length - 1)))
      (max (scaledIndex (random 0) (path.length - 1))
        (scaledIndex (random (k + 1)) (path.length - 1)))
      (ratio (random (k + 2))) (ratio (random (k + 3))) := by
  rw [optimize, if_neg (by omega)]
  dsimp only
  rw [drawOther_of_firstOther hk k.zero_le (by omega)]
  dsimp only
  split
  · next hlt => rw [min_eq_right hlt.le, max_eq_left hlt.le]
  · next hge => rw [min_eq_left (not_lt.1 hge), max_eq_right (not_lt.1 hge)]

/-- What a call makes of the draws: it shortens the path at the two segments that they choose, or
it is still looking for the second one. -/
theorem optimize_cases (mobility : Mobility C K) (random : ℕ → Draw) (h : 3 ≤ path.length)
    (fuel : ℕ) :
    (∃ k, FirstOther random (path.length - 1) k ∧ optimize mobility random path fuel =
      shortcut mobility path
        (min (scaledIndex (random 0) (path.length - 1))
          (scaledIndex (random (k + 1)) (path.length - 1)))
        (max (scaledIndex (random 0) (path.length - 1))
          (scaledIndex (random (k + 1)) (path.length - 1)))
        (ratio (random (k + 2))) (ratio (random (k + 3)))) ∨
      optimize mobility random path fuel = .error .outOfFuel := by
  rcases Classical.em (∃ k < fuel, scaledIndex (random 0) (path.length - 1) ≠
    scaledIndex (random (k + 1)) (path.length - 1)) with hex | hnone
  · left
    have hspec := Nat.find_spec hex
    have hother : FirstOther random (path.length - 1) (Nat.find hex) := by
      refine ⟨fun i hi ↦ ?_, hspec.2⟩
      by_contra hne
      exact Nat.find_min hex hi ⟨hi.trans hspec.1, hne⟩
    exact ⟨_, hother, optimize_of_firstOther mobility h hother hspec.1⟩
  · right
    rw [optimize, if_neg (by omega)]
    dsimp only
    rw [drawOther_of_same fun i hi ↦ ?_]
    by_contra hne
    exact hnone ⟨i, hi, by rwa [Nat.add_comm i 1]⟩

/-- The draws up to `k + 3` are for segments of the path, and the points that they choose on a valid
path do not collide when the second is reachable from the first. -/
structure Harmless (mobility : Mobility C K) (collides : C → Bool) (random : ℕ → Draw)
    (path : List C) (k : ℕ) : Prop where
  first : scaledIndex (random 0) (path.length - 1) < path.length - 1
  second : scaledIndex (random (k + 1)) (path.length - 1) < path.length - 1
  free : Valid mobility collides path → ∀ cfg1 cfg2,
    pointOn mobility path (min (scaledIndex (random 0) (path.length - 1))
      (scaledIndex (random (k + 1)) (path.length - 1))) (ratio (random (k + 2))) = .ok cfg1 →
    pointOn mobility path (max (scaledIndex (random 0) (path.length - 1))
      (scaledIndex (random (k + 1)) (path.length - 1))) (ratio (random (k + 3))) = .ok cfg2 →
    mobility.isReachable cfg1 cfg2 = true → collides cfg1 = false ∧ collides cfg2 = false

theorem KeepsValid.harmless (hkeeps : KeepsValid mobility collides random path)
    (h : 3 ≤ path.length) {k : ℕ} (hk : FirstOther random (path.length - 1) k) :
    Harmless mobility collides random path k := by
  have hrun := optimize_of_firstOther mobility h hk k.lt_succ_self
  have hmax : max (scaledIndex (random 0) (path.length - 1))
      (scaledIndex (random (k + 1)) (path.length - 1)) < path.length - 1 := by
    by_contra hge
    exact hkeeps.inRange (k + 1) (hrun.trans (shortcut_of_ge (not_lt.1 hge)))
  refine ⟨(le_max_left _ _).trans_lt hmax, (le_max_right _ _).trans_lt hmax, ?_⟩
  intro hvalid cfg1 cfg2 hcfg1 hcfg2 hreach
  rw [shortcut_of_lt hcfg1 hcfg2, if_pos hreach] at hrun
  have hfree := hkeeps.free hvalid (k + 1) _ hrun
  exact ⟨hfree cfg1 (by simp), hfree cfg2 (by simp)⟩

theorem keepsValid_of_harmless (h : 3 ≤ path.length)
    (hharmless : ∀ k, FirstOther random (path.length - 1) k →
      Harmless mobility collides random path k) :
    KeepsValid mobility collides random path := by
  have hall : ∀ fuel out, optimize mobility random path fuel = out →
      out ≠ .error .outOfRange ∧ ∀ path', out = .ok path' →
        (path'.head? = path.head? ∧ path'.getLast? = path.getLast?) ∧
          (Valid mobility collides path → ∀ q ∈ path', collides q = false) := by
    rintro fuel _ rfl
    rcases optimize_cases mobility random h fuel with ⟨k, hk, hrun⟩ | hrun
    · obtain ⟨hfirst, hsecond, hfree⟩ := hharmless k hk
      have hmax := max_lt hfirst hsecond
      have hmin := min_le_max.trans_lt hmax
      obtain ⟨cfg1, hcfg1⟩ := pointOn_of_lt mobility hmin (ratio (random (k + 2)))
      obtain ⟨cfg2, hcfg2⟩ := pointOn_of_lt mobility hmax (ratio (random (k + 3)))
      rw [hrun, shortcut_of_lt hcfg1 hcfg2]
      split
      · next hreach =>
        refine ⟨nofun, ?_⟩
        rintro _ ⟨⟩
        refine ⟨ends_take_drop hmin hmax, fun hvalid q hq ↦ ?_⟩
        obtain ⟨hfree1, hfree2⟩ := hfree hvalid cfg1 cfg2 hcfg1 hcfg2 hreach
        simp only [List.mem_append, List.mem_cons, List.not_mem_nil, or_false] at hq
        rcases hq with (hq | rfl | rfl) | hq
        · exact hvalid.free q (List.mem_of_mem_take hq)
        · exact hfree1
        · exact hfree2
        · exact hvalid.free q (List.mem_of_mem_drop hq)
      · refine ⟨nofun, ?_⟩
        rintro _ ⟨⟩
        exact ⟨⟨rfl, rfl⟩, fun hvalid ↦ hvalid.free⟩
    · rw [hrun]
      exact ⟨nofun, nofun⟩
  exact ⟨fun fuel ↦ (hall fuel _ rfl).1, fun fuel out hout ↦ ((hall fuel _ rfl).2 out hout).1,
    fun hvalid fuel out hout ↦ ((hall fuel _ rfl).2 out hout).2 hvalid⟩

/-- **When a random shortcut is safe.** With given draws the optimizer stays inside of a path, keeps
its ends and puts no collision into a valid path exactly when both draws for a segment are for one
of the segments that the path has, and the two points do not collide or the way between them is not
open. -/
theorem keepsValid_iff (mobility : Mobility C K) (collides : C → Bool) (random : ℕ → Draw)
    (path : List C) (h : 3 ≤ path.length) :
    KeepsValid mobility collides random path ↔
      ∀ k, FirstOther random (path.length - 1) k → Harmless mobility collides random path k :=
  ⟨fun hkeeps _ hk ↦ hkeeps.harmless h hk, keepsValid_of_harmless h⟩

end Optimize

/-! ### A robot on a line -/

/-- A robot on a line whose ways are sampled at distances of two. -/
def slider (collides : ℚ → Bool) : Mobility ℚ ℚ :=
  sampledMobility (fun a b ↦ |b - a|) (fun a b r ↦ a + r * (b - a)) 2 collides

/-- The values of `random()` in order, zeros after the first ones. -/
def drawsOf (draws : List Draw) (k : ℕ) : Draw :=
  draws.getD k ⟨0, Nat.zero_le _⟩

/-- The largest value of `random()`. -/
def maxDraw : Draw :=
  ⟨randMax, le_rfl⟩

theorem keepsValid_iff_slider :
    KeepsValid (slider fun _ ↦ false) (fun _ ↦ false) (drawsOf [maxDraw]) [0, 1, 2] ↔
      ∀ k, FirstOther (drawsOf [maxDraw]) 2 k →
        Harmless (slider fun _ ↦ false) (fun _ ↦ false) (drawsOf [maxDraw]) [0, 1, 2] k :=
  keepsValid_iff (slider fun _ ↦ false) (fun _ ↦ false) (drawsOf [maxDraw]) [0, 1, 2] (by decide)

theorem scaledIndex_zero (nSegment : ℕ) : scaledIndex ⟨0, Nat.zero_le _⟩ nSegment = 0 := by
  have hfloat : toFloat 0 = 0 := roundBits_zero 24
  rw [scaledIndex, Nat.cast_zero, hfloat, zero_div, hfloat, zero_mul, hfloat, Nat.floor_zero]

/-- The draw of a half. -/
def halfDraw : Draw :=
  ⟨2 ^ 30, by rw [randMax]; norm_num⟩

theorem scaledIndex_halfDraw : scaledIndex halfDraw 2 = 1 := by
  have hmax : toFloat randMax = 2 ^ 31 := toFloat_of_ge le_rfl (by rw [randMax]; norm_num)
  have hdraw : toFloat halfDraw.1 = 2 ^ 30 := by
    rw [halfDraw]
    exact_mod_cast toFloat_two_zpow 30
  have hhalf : toFloat (2 ^ 30 / 2 ^ 31) = 1 / 2 := by
    rw [show (2 ^ 30 / 2 ^ 31 : ℚ) = 2 ^ (-1 : ℤ) by norm_num, toFloat_two_zpow]
    norm_num
  have htwo : toFloat (2 : ℕ) = 2 := toFloat_natCast (by norm_num)
  rw [scaledIndex, hmax, hdraw, hhalf, htwo, show (1 / 2 * 2 : ℚ) = 1 by norm_num, toFloat_one,
    Nat.floor_one]

/-- An obstacle strictly between 0 and 1. -/
def obstacle (q : ℚ) : Bool :=
  0 < q && q < 1

theorem slider_isReachable {collides : ℚ → Bool} {a b : ℚ} (h : |b - a| < 2) :
    (slider collides).isReachable a b = true := by
  refine isReachable_of_pieces ?_
  rw [pieces, Nat.floor_eq_zero.2 ((div_lt_one two_pos).2 h)]

theorem valid_obstacle : Valid (slider obstacle) obstacle [0, 1, 2] where
  free := by decide +kernel
  chain := by
    refine .cons_cons (slider_isReachable ?_)
      (.cons_cons (slider_isReachable ?_) (.singleton 2)) <;>
      norm_num [abs_lt]

/-- With `RAND_MAX` as the first draw the optimizer reads behind the end of the path. With draws for
the two halves of the way from 0 to 2 it puts a point close to 0 into a valid path, where the
obstacle is. -/
theorem not_keepsValid_slider :
    ¬ KeepsValid (slider fun _ ↦ false) (fun _ ↦ false) (drawsOf [maxDraw]) [0, 1, 2] ∧
      ¬ KeepsValid (slider obstacle) obstacle
        (drawsOf [⟨0, Nat.zero_le _⟩, halfDraw, ⟨1, by decide⟩]) [0, 1, 2] := by
  constructor
  · intro h
    have hmax : ¬ scaledIndex maxDraw 2 < 2 := by
      rw [scaledIndex_lt_iff (by norm_num) (by norm_num), maxDraw, randMax]
      norm_num
    have hother : FirstOther (drawsOf [maxDraw]) 2 0 := by
      refine ⟨nofun, fun heq ↦ hmax ?_⟩
      rw [show scaledIndex maxDraw 2 = 0 from heq.trans (scaledIndex_zero 2)]
      norm_num
    exact hmax (h.harmless (by decide) hother).first
  · intro h
    set draws := drawsOf [⟨0, Nat.zero_le _⟩, halfDraw, ⟨1, by rw [randMax]; norm_num⟩]
    have hfirst : scaledIndex (draws 0) (([0, 1, 2] : List ℚ).length - 1) = 0 := scaledIndex_zero 2
    have hsecond : scaledIndex (draws 1) (([0, 1, 2] : List ℚ).length - 1) = 1 :=
      scaledIndex_halfDraw
    have hother : FirstOther draws (([0, 1, 2] : List ℚ).length - 1) 0 := by
      refine ⟨nofun, ?_⟩
      rw [hfirst, hsecond]
      exact Nat.zero_ne_one
    have hcfg1 : pointOn (slider obstacle) [0, 1, 2] 0 (ratio (draws 2)) =
        .ok (0 + ratio (draws 2) * (1 - 0)) := rfl
    have hcfg2 : pointOn (slider obstacle) [0, 1, 2] 1 (ratio (draws 3)) =
        .ok (1 + ratio (draws 3) * (2 - 1)) := rfl
    have hratio1 : (ratio (draws 2) : ℚ) = 1 / (2 ^ 31 - 1) := by
      show ((1 : ℕ) : ℚ) / ((2 ^ 31 - 1 : ℕ) : ℚ) = _
      norm_num
    have hratio2 : (ratio (draws 3) : ℚ) = 0 := by
      show ((0 : ℕ) : ℚ) / _ = 0
      rw [Nat.cast_zero, zero_div]
    have hfree := (h.harmless (by decide) hother).free valid_obstacle
    rw [hfirst, hsecond] at hfree
    have hcollides := (hfree _ _ hcfg1 hcfg2 (slider_isReachable (by
      rw [hratio1, hratio2]
      norm_num [abs_lt]))).1
    rw [hratio1, obstacle] at hcollides
    norm_num at hcollides

end OpenHRP.PathEngine.RandomShortcutOptimizer
