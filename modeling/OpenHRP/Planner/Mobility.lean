import OpenHRP.Planner.PathCollision
import OpenHRP.Planner.RRT
import Mathlib.Algebra.Order.Floor.Semiring

/-!
# Mobilities

What the class `Mobility` makes of the distance and the interpolation that a subclass gives it. The
way from one configuration to another is sampled at equal ratios, as many as the distance asks for
(`getPath`), and it is open when no sample strictly between its ends collides (`isReachable_iff`).
-/

namespace OpenHRP.PathEngine

variable {C K : Type*} [Field K] [LinearOrder K] [FloorSemiring K]

section Mobility

variable (distance : C → C → K) (interpolate : C → C → K → C) (interpolationDistance : K)

/-- The number of pieces that `Mobility::getPath` cuts a way into. -/
def pieces (source target : C) : ℕ :=
  ⌊distance source target / interpolationDistance⌋₊ + 1

/-- `Mobility::getPath`. -/
def getPath (source target : C) : List C :=
  let n := pieces distance interpolationDistance source target
  [source] ++
    (List.range' 1 (n - 1)).map (fun i : ℕ ↦ interpolate source target (i / n)) ++ [target]

/-- `Mobility::isReachable`. -/
def isReachable (collides : C → Bool) (source target : C) (checkCollision : Bool) : Bool :=
  let path := getPath distance interpolate interpolationDistance source target
  if checkCollision then
    (checkPathCollision collides path.length path).any fun r ↦ !r.1
  else true

/-- The mobility of a subclass with this distance and this interpolation. -/
def sampledMobility (collides : C → Bool) : Mobility C K where
  distance := distance
  interpolate := interpolate
  isReachable source target :=
    isReachable distance interpolate interpolationDistance collides source target true

variable {distance interpolate interpolationDistance} {collides : C → Bool} {source target : C}

theorem length_getPath :
    (getPath distance interpolate interpolationDistance source target).length =
      pieces distance interpolationDistance source target + 1 := by
  simp [getPath, pieces]

/-- A way is open when none of its inner samples collides. -/
theorem isReachable_iff :
    isReachable distance interpolate interpolationDistance collides source target true = true ↔
      ¬ InnerCollides collides
        (getPath distance interpolate interpolationDistance source target) := by
  have hlength : 2 ≤ (getPath distance interpolate interpolationDistance source target).length := by
    rw [length_getPath, pieces]
    omega
  obtain ⟨b, s, hrun, hb, -⟩ := checkPathCollision_eq collides hlength
  rw [isReachable, if_pos rfl, hrun _ le_rfl, ← hb]
  simp

theorem getElem_getPath_first {i : ℕ} (hi : i = 0)
    (h : i < (getPath distance interpolate interpolationDistance source target).length) :
    (getPath distance interpolate interpolationDistance source target)[i] = source := by
  subst hi
  simp [getPath]

theorem getElem_getPath_inner {i : ℕ} (hpos : 0 < i)
    (hlt : i < pieces distance interpolationDistance source target)
    (h : i < (getPath distance interpolate interpolationDistance source target).length) :
    (getPath distance interpolate interpolationDistance source target)[i] =
      interpolate source target (i / pieces distance interpolationDistance source target) := by
  obtain ⟨i, rfl⟩ := Nat.exists_eq_add_of_le' hpos
  simp only [getPath, List.cons_append, List.nil_append, List.getElem_cons_succ]
  rw [List.getElem_append_left (by simpa using (by omega : i < pieces _ _ source target - 1)),
    List.getElem_map, List.getElem_range']
  simp [add_comm]

theorem getElem_getPath_last {i : ℕ} (hi : i = pieces distance interpolationDistance source target)
    (h : i < (getPath distance interpolate interpolationDistance source target).length) :
    (getPath distance interpolate interpolationDistance source target)[i] = target := by
  subst hi
  simp [getPath, pieces]

/-- A way is open when no sample at an inner ratio collides. -/
theorem isReachable_iff_sample :
    isReachable distance interpolate interpolationDistance collides source target true = true ↔
      ∀ i : ℕ, 0 < i → i < pieces distance interpolationDistance source target →
        collides (interpolate source target
          (i / pieces distance interpolationDistance source target)) = false := by
  rw [isReachable_iff]
  constructor
  · intro h i hpos hlt
    rw [← Bool.not_eq_true]
    intro hcollides
    have hlen : i < (getPath distance interpolate interpolationDistance source target).length := by
      rw [length_getPath]
      omega
    refine h ⟨i, ⟨hpos, ?_⟩, hlen, ?_⟩
    · rw [length_getPath]
      omega
    · rw [getElem_getPath_inner hpos hlt, hcollides]
  · rintro h ⟨i, ⟨hpos, hlt⟩, hlen, hcollides⟩
    rw [length_getPath] at hlt
    rw [getElem_getPath_inner hpos (by omega), h i hpos (by omega)] at hcollides
    cases hcollides

/-- When both ways have as many pieces, they have the same samples in opposite orders, up to a
relation, exactly when the samples at opposite ratios are related. -/
theorem forall₂_getPath_reverse_iff {R : C → C → Prop} {n : ℕ} (hsource : R source source)
    (htarget : R target target) (hthere : pieces distance interpolationDistance source target = n)
    (hback : pieces distance interpolationDistance target source = n) :
    List.Forall₂ R (getPath distance interpolate interpolationDistance target source)
        (getPath distance interpolate interpolationDistance source target).reverse ↔
      ∀ i : ℕ, 0 < i → i < n →
        R (interpolate target source (i / n)) (interpolate source target ((n - i : ℕ) / n)) := by
  rw [List.forall₂_iff_get]
  simp only [List.get_eq_getElem, List.getElem_reverse, List.length_reverse, length_getPath, hback,
    hthere]
  constructor
  · rintro ⟨-, h⟩ i hpos hlt
    have hi := h i (by omega) (by omega)
    rwa [getElem_getPath_inner hpos (by omega), hback,
      getElem_getPath_inner (by omega) (by omega), hthere,
        show n + 1 - 1 - i = n - i by omega] at hi
  · refine fun h ↦ ⟨trivial, fun i hi _ ↦ ?_⟩
    rcases Nat.eq_zero_or_pos i with hzero | hpos
    · rw [getElem_getPath_first hzero, getElem_getPath_last (by omega)]
      exact htarget
    · rcases (Nat.lt_succ_iff.1 hi).eq_or_lt with hlast | hlt
      · rw [getElem_getPath_last (by omega), getElem_getPath_first (by omega)]
        exact hsource
      · rw [getElem_getPath_inner hpos (by omega), hback,
          getElem_getPath_inner (by omega) (by omega), hthere,
          show n + 1 - 1 - i = n - i by omega]
        exact h i hpos hlt

theorem isReachable_of_pieces (h : pieces distance interpolationDistance source target = 1) :
    isReachable distance interpolate interpolationDistance collides source target true = true := by
  rw [isReachable_iff]
  rintro ⟨i, ⟨hpos, hlt⟩, -⟩
  rw [length_getPath, h] at hlt
  omega

end Mobility

end OpenHRP.PathEngine
