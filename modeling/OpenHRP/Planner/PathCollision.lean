import Mathlib.Data.List.Nodup
import Mathlib.Tactic.Ring

/-!
# Collision checks along a path

`PathPlanner::checkCollision` for a path looks at the configurations strictly between the ends, in
an order that meets a wide obstacle early: at strides of a half of the path, then of a third, and so
on. A vector of flags keeps it from looking at one of them twice, and a counter of the looks is one
half of the condition of its outer loop.

The check of a single configuration is a predicate `collides`, and a state lists the indices for
which it was called. A loop takes the number of its turns as fuel. An index that was called is
inside of the path and has its flag set (`Scanned`); a pass with stride `step` keeps this and sets
the flags of the multiples of `step` (`stride_spec`). The other half of the condition, `path.size()
/ div`, keeps the outer loop alive until it has made the pass with stride one (`divisions_spec`).
-/

namespace OpenHRP.PathEngine

variable {C : Type*}

/-- The variables of the check of a path, and the indices for which it has called the check of a
single configuration, in order. -/
structure PathCheck where
  checked : ℕ
  isVisited : ℕ → Bool
  calls : List ℕ

/-- An index strictly between the ends of a path. -/
def IsInner (path : List C) (i : ℕ) : Prop :=
  0 < i ∧ i + 1 < path.length

namespace PathCheck

/-- The state before the loops: the flag of the last configuration is set. -/
def start (path : List C) : PathCheck :=
  ⟨1, fun i ↦ i == path.length - 1, []⟩

/-- The configuration with index `i` is looked at. -/
def call (s : PathCheck) (i : ℕ) : PathCheck :=
  { s with checked := s.checked + 1, calls := s.calls ++ [i] }

/-- `isVisited[i] = true`. -/
def visit (s : PathCheck) (i : ℕ) : PathCheck :=
  { s with isVisited := Function.update s.isVisited i true }

section Loops

variable (collides : C → Bool) (path : List C)

/-- The inner loop: the indices `i`, `i + step`, … -/
def stride (step : ℕ) : ℕ → ℕ → PathCheck → Option (Bool × PathCheck)
  | 0, _, _ => none
  | fuel + 1, i, s =>
    if h : i < path.length then
      if s.isVisited i then stride step fuel (i + step) s
      else if collides path[i] then some (true, s.call i)
      else stride step fuel (i + step) ((s.call i).visit i)
    else some (false, s)

/-- The outer loop, from the divisor `div` on. -/
def divisions (strideFuel : ℕ) : ℕ → ℕ → PathCheck → Option (Bool × PathCheck)
  | 0, _, _ => none
  | fuel + 1, div, s =>
    if s.checked < path.length - 1 ∨ 0 < path.length / div then
      let step := path.length / div
      match stride collides path step strideFuel step s with
      | none => none
      | some (true, s) => some (true, s)
      | some (false, s) => divisions strideFuel fuel (div + 1) s
    else some (false, s)

end Loops

end PathCheck

/-- `PathPlanner::checkCollision` for a path: whether it found a collision, and the indices of the
configurations that it checked, in order. -/
def checkPathCollision (collides : C → Bool) (fuel : ℕ) (path : List C) :
    Option (Bool × List ℕ) :=
  (PathCheck.divisions collides path fuel fuel 2 (PathCheck.start path)).map fun r ↦
    (r.1, r.2.calls)

/-! ### A pass -/

namespace PathCheck

variable {collides : C → Bool} {path : List C} {s s' : PathCheck} {i step : ℕ} {r : Bool}

/-- The indices called so far are inner and different. -/
structure Calls (path : List C) (s : PathCheck) : Prop where
  nodup : s.calls.Nodup
  inner : ∀ i ∈ s.calls, IsInner path i

/-- The invariant of the loops: nothing collides so far, and the flags and the counter agree with
the calls. -/
structure Scanned (collides : C → Bool) (path : List C) (s : PathCheck) : Prop
    extends Calls path s where
  checked : s.checked = s.calls.length + 1
  visited : ∀ i, s.isVisited i = true ↔ i ∈ s.calls ∨ i = path.length - 1
  free : ∀ i ∈ s.calls, ∀ h : i < path.length, collides path[i] = false

/-- The state after a check that found a collision. -/
structure Hit (collides : C → Bool) (path : List C) (s : PathCheck) :
    Prop extends Calls path s where
  collides : ∃ i ∈ s.calls, ∃ h : i < path.length, collides path[i] = true

theorem scanned_start (collides : C → Bool) (path : List C) :
    Scanned collides path (start path) where
  nodup := List.nodup_nil
  inner := fun _ h ↦ absurd h List.not_mem_nil
  checked := rfl
  visited := fun i ↦ by simp [start]
  free := fun _ h ↦ absurd h List.not_mem_nil

theorem Scanned.isInner (hs : Scanned collides path s) (hpos : 0 < i) (hlt : i < path.length)
    (hi : s.isVisited i = false) : i ∉ s.calls ∧ IsInner path i := by
  have hnot : ¬ (i ∈ s.calls ∨ i = path.length - 1) := fun h ↦ by
    rw [(hs.visited i).2 h] at hi
    cases hi
  exact ⟨fun h ↦ hnot (.inl h), hpos, by have := fun h ↦ hnot (.inr h); omega⟩

theorem Calls.call (hs : Calls path s) (hi : i ∉ s.calls) (hinner : IsInner path i) :
    Calls path (s.call i) where
  nodup := List.nodup_append.2 ⟨hs.nodup, List.nodup_singleton i, fun j hj k hk ↦ by
    rw [List.mem_singleton.1 hk]
    exact ne_of_mem_of_not_mem hj hi⟩
  inner := fun j hj ↦ by
    rcases List.mem_append.1 hj with hj | hj
    · exact hs.inner j hj
    · rwa [List.mem_singleton.1 hj]

/-- A configuration that is looked at and does not collide. -/
theorem Scanned.call_visit (hs : Scanned collides path s) (hi : i ∉ s.calls)
    (hinner : IsInner path i) (hfree : ∀ h : i < path.length, collides path[i] = false) :
    Scanned collides path ((s.call i).visit i) where
  toCalls := ⟨(hs.toCalls.call hi hinner).nodup, (hs.toCalls.call hi hinner).inner⟩
  checked := by simp [visit, call, hs.checked]
  visited := fun j ↦ by
    show Function.update s.isVisited i true j = true ↔ j ∈ s.calls ++ [i] ∨ _
    rw [List.mem_append, List.mem_singleton]
    rcases eq_or_ne j i with rfl | hj
    · simp
    · rw [Function.update_of_ne hj, hs.visited j]
      simp [hj]
  free := fun j hj h ↦ by
    rcases List.mem_append.1 hj with hj | hj
    · exact hs.free j hj h
    · obtain rfl := List.mem_singleton.1 hj
      exact hfree h

/-- How a loop ends that was in the state `s`: with a collision, or with the flags that were set
still set and those of `T` set as well. -/
inductive Ends (collides : C → Bool) (path : List C) (s : PathCheck) (T : ℕ → Prop) :
    Bool → PathCheck → Prop
  | hit {s' : PathCheck} : Hit collides path s' → Ends collides path s T true s'
  | scanned {s' : PathCheck} : Scanned collides path s' →
    (∀ j, s.isVisited j = true → s'.isVisited j = true) → (∀ j, T j → s'.isVisited j = true) →
    Ends collides path s T false s'

/-- A loop that goes on from the state `t`. -/
theorem Ends.trans {t : PathCheck} {T T' : ℕ → Prop} (h : Ends collides path t T r s')
    (hmono : ∀ j, s.isVisited j = true → t.isVisited j = true)
    (hT : ∀ j, T' j → T j ∨ t.isVisited j = true) : Ends collides path s T' r s' := by
  cases h with
  | hit h => exact .hit h
  | scanned h hold hnew =>
    exact .scanned h (fun j hj ↦ hold j (hmono j hj)) fun j hj ↦ (hT j hj).elim (hnew j) (hold j)

/-- A pass from an index after the first one, with a stride of at least one, ends. -/
theorem stride_spec (hstep : 0 < step) (hpos : 0 < i) (hs : Scanned collides path s) :
    ∃ r s', (∀ fuel, path.length - i < fuel → stride collides path step fuel i s = some (r, s')) ∧
      Ends collides path s (fun j ↦ j < path.length ∧ ∃ k, j = i + k * step) r s' := by
  induction hn : path.length - i using Nat.strong_induction_on generalizing i s with
  | _ n ih =>
    by_cases hlt : i < path.length
    · -- the rest of the pass, from a state in which the flag of `i` is set
      have hrest : ∀ t, Scanned collides path t →
          (∀ j, s.isVisited j = true → t.isVisited j = true) → t.isVisited i = true →
          ∃ r s', (∀ fuel, path.length - i < fuel + 1 →
              stride collides path step fuel (i + step) t = some (r, s')) ∧
            Ends collides path s (fun j ↦ j < path.length ∧ ∃ k, j = i + k * step) r s' := by
        intro t ht hmono hi
        obtain ⟨r, s', hrun, hends⟩ := ih (path.length - (i + step)) (by omega)
          (Nat.add_pos_left hpos step) ht rfl
        refine ⟨r, s', fun fuel hfuel ↦ hrun fuel (by omega), hends.trans hmono ?_⟩
        rintro j ⟨hj, _ | k, rfl⟩
        · exact .inr (by rwa [Nat.zero_mul, Nat.add_zero])
        · exact .inl ⟨hj, k, by ring⟩
      cases hvisited : s.isVisited i with
      | true =>
        obtain ⟨r, s', hrun, hends⟩ := hrest s hs (fun _ h ↦ h) hvisited
        refine ⟨r, s', fun fuel hfuel ↦ ?_, hends⟩
        obtain ⟨fuel, rfl⟩ : ∃ m, fuel = m + 1 := ⟨fuel - 1, by omega⟩
        rw [stride, dif_pos hlt, if_pos hvisited]
        exact hrun fuel (hn ▸ hfuel)
      | false =>
        obtain ⟨hnew, hinner⟩ := hs.isInner hpos hlt hvisited
        cases hcollides : collides path[i] with
        | true =>
          refine ⟨true, s.call i, fun fuel hfuel ↦ ?_, .hit ⟨hs.toCalls.call hnew hinner,
            i, List.mem_append_right _ (List.mem_singleton_self i), hlt, hcollides⟩⟩
          obtain ⟨fuel, rfl⟩ : ∃ m, fuel = m + 1 := ⟨fuel - 1, by omega⟩
          rw [stride, dif_pos hlt, if_neg (by rw [hvisited]; decide), if_pos hcollides]
        | false =>
          obtain ⟨r, s', hrun, hends⟩ := hrest _ (hs.call_visit hnew hinner fun _ ↦ hcollides)
            (fun j hj ↦ by
              rcases eq_or_ne j i with rfl | hne
              · simp [visit]
              · simpa [visit, call, hne] using hj)
            (by simp [visit])
          refine ⟨r, s', fun fuel hfuel ↦ ?_, hends⟩
          obtain ⟨fuel, rfl⟩ : ∃ m, fuel = m + 1 := ⟨fuel - 1, by omega⟩
          rw [stride, dif_pos hlt, if_neg (by rw [hvisited]; decide),
            if_neg (by rw [hcollides]; decide)]
          exact hrun fuel (hn ▸ hfuel)
    · refine ⟨false, s, fun fuel hfuel ↦ ?_, .scanned hs (fun _ h ↦ h) fun j ⟨hj, k, hk⟩ ↦
        absurd (hk ▸ hj : i + k * step < path.length) (by omega)⟩
      cases fuel with
      | zero => omega
      | succ fuel => rw [stride, dif_neg hlt]

/-- When all flags are set, the counter has reached its bound. -/
theorem Scanned.le_checked (hs : Scanned collides path s)
    (hall : ∀ j, 0 < j ∧ j < path.length → s.isVisited j = true) :
    path.length - 1 ≤ s.checked := by
  have hsub : List.range' 1 (path.length - 2) ⊆ s.calls := fun j hj ↦ by
    rw [List.mem_range'_1] at hj
    rcases (hs.visited j).1 (hall j ⟨by omega, by omega⟩) with h | h
    · exact h
    · omega
  have hle := List.Nodup.length_le_of_subset List.nodup_range' hsub
  rw [List.length_range'] at hle
  rw [hs.checked]
  omega

/-- One turn of the outer loop with a divisor up to the size of the path. -/
theorem divisions_turn {div : ℕ} (hdiv : 0 < div) (hle : div ≤ path.length)
    (hs : Scanned collides path s) :
    ∃ r t, (∀ fuel strideFuel, path.length ≤ strideFuel →
        divisions collides path strideFuel (fuel + 1) div s =
          if r then some (true, t) else divisions collides path strideFuel fuel (div + 1) t) ∧
      Ends collides path s (fun j ↦ j < path.length ∧
        ∃ k, j = path.length / div + k * (path.length / div)) r t := by
  have hstep : 0 < path.length / div := Nat.div_pos hle hdiv
  obtain ⟨r, t, hrun, hends⟩ := stride_spec hstep hstep hs
  refine ⟨r, t, fun fuel strideFuel hfuel ↦ ?_, hends⟩
  rw [divisions, if_pos (.inr hstep)]
  dsimp only
  rw [hrun strideFuel (by omega)]
  cases r <;> rfl

/-- From a divisor up to the size of the path on, the outer loop makes the pass with stride one: it
ends with a collision, or with all flags set. -/
theorem divisions_spec {div : ℕ} (hdiv : 0 < div) (hle : div ≤ path.length)
    (hs : Scanned collides path s) :
    ∃ r s', (∀ fuel strideFuel, path.length + 1 - div < fuel → path.length ≤ strideFuel →
        divisions collides path strideFuel fuel div s = some (r, s')) ∧
      Ends collides path s (fun j ↦ 0 < j ∧ j < path.length) r s' := by
  induction hn : path.length - div using Nat.strong_induction_on generalizing div s with
  | _ n ih =>
    obtain ⟨r, t, hturn, hends⟩ := divisions_turn hdiv hle hs
    have hsucc : ∀ fuel, path.length + 1 - div < fuel → ∃ m, fuel = m + 1 ∧
        path.length - div < m := fun fuel hfuel ↦ ⟨fuel - 1, by omega, by omega⟩
    cases hends with
    | hit h =>
      refine ⟨true, t, fun fuel strideFuel hfuel hstride ↦ ?_, .hit h⟩
      obtain ⟨m, rfl, -⟩ := hsucc fuel hfuel
      exact hturn m strideFuel hstride
    | scanned h hold hnew =>
      rcases hle.eq_or_lt with heq | hlt
      · -- the pass with stride one was the last
        have hone : path.length / div = 1 := heq ▸ Nat.div_self hdiv
        have hall : ∀ j, 0 < j ∧ j < path.length → t.isVisited j = true := fun j hj ↦
          hnew j ⟨hj.2, j - 1, by rw [hone]; omega⟩
        have hchecked := h.le_checked hall
        have hzero : path.length / (div + 1) = 0 := Nat.div_eq_of_lt (by omega)
        refine ⟨false, t, fun fuel strideFuel hfuel hstride ↦ ?_, .scanned h hold hall⟩
        obtain ⟨m, rfl, hm⟩ := hsucc fuel hfuel
        rw [hturn m strideFuel hstride, if_neg Bool.false_ne_true]
        obtain ⟨k, rfl⟩ : ∃ k, m = k + 1 := ⟨m - 1, by omega⟩
        rw [divisions, if_neg (by omega)]
      · obtain ⟨r, s', hrun, hends⟩ :=
          ih (path.length - (div + 1)) (by omega) div.succ_pos hlt h rfl
        refine ⟨r, s', fun fuel strideFuel hfuel hstride ↦ ?_, hends.trans hold fun j hj ↦ .inl hj⟩
        obtain ⟨m, rfl, hm⟩ := hsucc fuel hfuel
        rw [hturn m strideFuel hstride, if_neg Bool.false_ne_true]
        exact hrun m strideFuel (by omega) hstride

end PathCheck

/-! ### The check of a path -/

section Check

variable {collides : C → Bool} {path : List C}

/-- An inner configuration of the path collides. -/
def InnerCollides (collides : C → Bool) (path : List C) : Prop :=
  ∃ i, IsInner path i ∧ ∃ h : i < path.length, collides path[i] = true

/-- The check of a path with two ends returns when its loops may take as many turns as the path has
configurations. -/
theorem checkPathCollision_eq (collides : C → Bool) (h : 2 ≤ path.length) :
    ∃ b s, (∀ fuel, path.length ≤ fuel → checkPathCollision collides fuel path =
        some (b, s.calls)) ∧ (b = true ↔ InnerCollides collides path) ∧
      PathCheck.Calls path s := by
  obtain ⟨r, s, hrun, hends⟩ := PathCheck.divisions_spec two_pos h
    (PathCheck.scanned_start collides path)
  refine ⟨r, s, fun fuel hfuel ↦ ?_, ?_⟩
  · rw [checkPathCollision, hrun fuel fuel (by omega) hfuel]
    rfl
  · cases hends with
    | hit hhit =>
      obtain ⟨i, hi, hcollides⟩ := hhit.collides
      exact ⟨iff_of_true rfl ⟨i, hhit.inner i hi, hcollides⟩, hhit.toCalls⟩
    | scanned hs _ hall =>
      refine ⟨iff_of_false Bool.false_ne_true ?_, hs.toCalls⟩
      rintro ⟨i, hinner, hlt, hcollides⟩
      have hmem : i ∈ s.calls := ((hs.visited i).1 (hall i ⟨hinner.1, hlt⟩)).resolve_right
        (by have := hinner.2; omega)
      rw [hs.free i hmem hlt] at hcollides
      cases hcollides

/-- **A path check misses nothing.** For a path of two configurations or more the loops end. The
answer is true exactly when a configuration strictly between the ends collides, and the
configurations checked are strictly between the ends, each of them checked once at most. -/
theorem checkPathCollision_spec (collides : C → Bool) (path : List C) (h : 2 ≤ path.length) :
    ∃ b calls, (∀ fuel, path.length ≤ fuel →
        checkPathCollision collides fuel path = some (b, calls)) ∧
      (b = true ↔ ∃ i, 1 ≤ i ∧ i + 1 < path.length ∧
        ∃ h : i < path.length, collides path[i] = true) ∧
      calls.Nodup ∧ ∀ i ∈ calls, 1 ≤ i ∧ i + 1 < path.length := by
  obtain ⟨b, s, hrun, hb, hcalls⟩ := checkPathCollision_eq collides h
  refine ⟨b, s.calls, hrun, hb.trans ⟨?_, ?_⟩, hcalls.nodup, hcalls.inner⟩
  · rintro ⟨i, ⟨hpos, hlt⟩, hcollides⟩
    exact ⟨i, hpos, hlt, hcollides⟩
  · rintro ⟨i, hpos, hlt, hcollides⟩
    exact ⟨i, ⟨hpos, hlt⟩, hcollides⟩

theorem checkPathCollision_spec_seven : ∃ b calls,
    (∀ fuel, 7 ≤ fuel → checkPathCollision (· == 5) fuel [0, 1, 2, 3, 4, 5, 6] = some (b, calls)) ∧
      (b = true ↔ ∃ i, 1 ≤ i ∧ i + 1 < 7 ∧
        ∃ h : i < 7, ([0, 1, 2, 3, 4, 5, 6][i] == 5) = true) ∧
      calls.Nodup ∧ ∀ i ∈ calls, 1 ≤ i ∧ i + 1 < 7 :=
  checkPathCollision_spec (· == 5) [0, 1, 2, 3, 4, 5, 6] (by decide)

/-- The order of the checks in a path of nine: the half, the thirds, the quarters, and the rest. -/
example : checkPathCollision (fun _ : ℕ ↦ false) 9 [0, 1, 2, 3, 4, 5, 6, 7, 8] =
    some (false, [4, 3, 6, 2, 1, 5, 7]) := by
  decide

end Check

end OpenHRP.PathEngine
