import Mathlib.Algebra.GroupWithZero.Nat
import Mathlib.Data.Nat.Cast.Defs

/-!
# Numerals

Named instances for the sizes and numerals that the definitions of this development write, so
that each of them elaborates to one and the same term wherever it is used.
-/

instance neZeroOne : NeZero 1 := ⟨Nat.one_ne_zero⟩

instance neZeroTwo : NeZero 2 := ⟨Nat.succ_ne_zero 1⟩

instance neZeroThree : NeZero 3 := ⟨Nat.succ_ne_zero 2⟩

instance neZeroFour : NeZero 4 := ⟨Nat.succ_ne_zero 3⟩

instance neZeroTwelve : NeZero 12 := ⟨Nat.succ_ne_zero 11⟩

instance atLeastTwoTwo : Nat.AtLeastTwo 2 := ⟨Nat.le_refl 2⟩

instance atLeastTwoThree : Nat.AtLeastTwo 3 := ⟨Nat.le_add_left 2 1⟩

instance atLeastTwoFour : Nat.AtLeastTwo 4 := ⟨Nat.le_add_left 2 2⟩

instance atLeastTwoSix : Nat.AtLeastTwo 6 := ⟨Nat.le_add_left 2 4⟩

instance atLeastTwoTen : Nat.AtLeastTwo 10 := ⟨Nat.le_add_left 2 8⟩

instance atLeastTwoHundred : Nat.AtLeastTwo 100 := ⟨Nat.le_add_left 2 98⟩
