import OpenHRP.Foundations.Literals
import Mathlib.Algebra.Order.ToIntervalMod

/-!
# Turns

A turn is a number up to multiples of a full turn `2 * p`, and `turn hp x` is the way to `x` of
least size: the representative of `x` in `(-p, p]`. Its size is what two opposite turns have in
common (`abs_turn_neg`); that they are opposite to one another as well fails for half a turn only
(`turn_neg`, `turn_eq_half_iff`).
-/

variable {K : Type*}

/-- Two numbers are equal up to full turns. -/
def SameTurn [CommRing K] (p x y : K) : Prop :=
  ∃ k : ℤ, x = y + k * (2 * p)

section SameTurn

variable [CommRing K] {p x y z : K}

theorem SameTurn.refl (p x : K) : SameTurn p x x :=
  ⟨0, by simp⟩

theorem SameTurn.symm (h : SameTurn p x y) : SameTurn p y x := by
  obtain ⟨k, rfl⟩ := h
  exact ⟨-k, by push_cast; ring⟩

theorem SameTurn.trans (h : SameTurn p x y) (h' : SameTurn p y z) : SameTurn p x z := by
  obtain ⟨k, rfl⟩ := h
  obtain ⟨l, rfl⟩ := h'
  exact ⟨k + l, by push_cast; ring⟩

theorem SameTurn.add_left (h : SameTurn p x y) (z : K) : SameTurn p (z + x) (z + y) := by
  obtain ⟨k, rfl⟩ := h
  exact ⟨k, by ring⟩

theorem SameTurn.neg (h : SameTurn p x y) : SameTurn p (-x) (-y) := by
  obtain ⟨k, rfl⟩ := h
  exact ⟨-k, by push_cast; ring⟩

end SameTurn

section Turn

variable [Field K] [LinearOrder K] [IsStrictOrderedRing K] [Archimedean K] {p : K}

/-- The representative of a number in `(-p, p]`, up to multiples of `2 * p`. -/
noncomputable def turn (hp : 0 < p) (x : K) : K :=
  toIocMod (mul_pos two_pos hp) (-p) x

variable (hp : 0 < p) (x y : K)

theorem turn_mem : -p < turn hp x ∧ turn hp x ≤ p := by
  have h := toIocMod_mem_Ioc (mul_pos two_pos hp) (-p) x
  exact ⟨h.1, h.2.trans_eq (by ring)⟩

theorem abs_turn_le : |turn hp x| ≤ p :=
  abs_le.2 ⟨(turn_mem hp x).1.le, (turn_mem hp x).2⟩

theorem sameTurn_turn : SameTurn p x (turn hp x) :=
  ⟨toIocDiv (mul_pos two_pos hp) (-p) x, (toIocMod_add_toIocDiv_mul _ _ _).symm⟩

variable {x y}

theorem SameTurn.turn_eq (h : SameTurn p x y) : turn hp x = turn hp y := by
  obtain ⟨k, rfl⟩ := h
  exact toIocMod_add_intCast_mul _ _ _ _

/-- Between `-p` and `p` a number is its own representative. -/
theorem turn_eq_of_mem (hlt : -p < x) (hle : x ≤ p) : turn hp x = x :=
  (toIocMod_eq_self _).2 ⟨hlt, hle.trans_eq (by ring)⟩

theorem eq_turn (h : SameTurn p x y) (hlt : -p < y) (hle : y ≤ p) : y = turn hp x :=
  ((h.turn_eq hp).trans (turn_eq_of_mem hp hlt hle)).symm

theorem turn_half : turn hp (-p) = p := by
  rw [SameTurn.turn_eq hp (⟨-1, by push_cast; ring⟩ : SameTurn p (-p) p)]
  exact turn_eq_of_mem hp (by linarith) le_rfl

theorem abs_turn_of_abs_le (h : |x| ≤ p) : |turn hp x| = |x| := by
  rcases (abs_le.1 h).1.eq_or_lt with rfl | hlt
  · rw [turn_half, abs_neg]
  · rw [turn_eq_of_mem hp hlt (abs_le.1 h).2]

/-- Short of half a turn, the way back is the opposite of the way there. -/
theorem turn_neg (h : turn hp x ≠ p) : turn hp (-x) = -turn hp x := by
  obtain ⟨hlt, hle⟩ := turn_mem hp x
  have hlt' : turn hp x < p := lt_of_le_of_ne hle h
  exact (eq_turn hp (sameTurn_turn hp x).neg (by linarith) (by linarith)).symm

/-- At half a turn, the way there and the way back turn the same way. -/
theorem turn_neg_of_half (h : turn hp x = p) : turn hp (-x) = p := by
  rw [(sameTurn_turn hp x).neg.turn_eq hp, h, turn_half]

theorem abs_turn_neg : |turn hp (-x)| = |turn hp x| := by
  rcases eq_or_ne (turn hp x) p with h | h
  · rw [turn_neg_of_half hp h, h]
  · rw [turn_neg hp h, abs_neg]

theorem turn_eq_half_iff : turn hp x = p ↔ ∃ k : ℤ, x = (2 * k + 1) * p := by
  constructor
  · intro h
    obtain ⟨k, hk⟩ := sameTurn_turn hp x
    exact ⟨k, by rw [hk, h]; ring⟩
  · rintro ⟨k, rfl⟩
    rw [SameTurn.turn_eq hp (⟨k, by ring⟩ : SameTurn p ((2 * k + 1) * p) p)]
    exact turn_eq_of_mem hp (by linarith) le_rfl

end Turn
