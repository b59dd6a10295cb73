import OpenHRP.Dynamics.PhaseInputs
import OpenHRP.Foundations.RungeKutta

/-!
# The Runge-Kutta step of articulated-body dynamics

`calcMotionWithRungeKuttaMethod` advances a body by one time step. It holds the state at the start
of the step and the weighted sums of the stages in buffers of the solver (`Buffers`), and moves from
stage to stage with `integrateRungeKuttaOneStep`.

The phases that compute the accelerations are parameters here: `lastHalf` for the first stage and
`phases` for the others. All that is assumed of them is that on the states `G` of the body at hand
they compute the joint accelerations as a function `A` of the joint positions and velocities
(`Accelerates`).

The helper adds the velocity of the **next** stage to its sums, not the one the stage started with,
so the step is not the classical one: positions are off by `h²/12 (4 l₃ - l₁)`
(`calcMotionWithRungeKuttaMethod_eq`), velocities are right. The step is the classical one exactly
when `h = 0` or `l₁ = 4 l₃` at every joint (`isClassicalStep_iff`).
-/

open Matrix

namespace OpenHRP

namespace ForwardDynamicsABM

variable {ι K : Type*} [DecidableEq ι] [Field K]

/-! ### The step of the source -/

/-- The buffers for the Runge-Kutta method. -/
structure Buffers (ι K : Type*) where
  p0 : Vector3 K
  R0 : Matrix33 K
  vo0 : Vector3 K
  w0 : Vector3 K
  q0 : ι → K
  dq0 : ι → K
  vo : Vector3 K
  w : Vector3 K
  dvo : Vector3 K
  dw : Vector3 K
  dq : ι → K
  ddq : ι → K

section Integrate

variable [CMath K] [LT K] [DecidableLT K]

/-- `std::numeric_limits<double>::epsilon()`. -/
def epsilon : K :=
  1 / 2 ^ 52

/-- The pose reached in the time `dt` from the pose `(p0, R0)` with the spatial velocity
`(vo, w)`. -/
def SE3exp (p0 : Vector3 K) (R0 : Matrix33 K) (w vo : Vector3 K) (dt : K) :
    Vector3 K × Matrix33 K :=
  let norm_w := CMath.sqrt (w ⬝ᵥ w)
  if norm_w < epsilon then (p0 + dt • vo, R0)
  else
    let th := norm_w * dt
    let w_n := norm_w⁻¹ • w
    let vo_n := norm_w⁻¹ • vo
    let rot := rodrigues w_n th
    (rot *ᵥ p0 + (1 - rot) *ᵥ cross w_n vo_n + th • (vecMulVec w_n w_n *ᵥ vo_n), rot * R0)

/-- The root after one stage of the length `dt`. -/
def integrateRoot (x : Buffers ι K) (dt : K) (root : Link K) : Link K :=
  let (p, R) := SE3exp x.p0 x.R0 root.w root.vo dt
  { root with p := p, R := R, vo := x.vo0 + dt • root.dvo, w := x.w0 + dt • root.dw }

/-- One stage: the joints move from the start of the step for the time `dt`, and what the links now
carry enters the sums with the weight `r`. -/
def integrateRungeKuttaOneStep (t : LinkTree ι) (r dt : K) (x : Buffers ι K) (s : Store ι K) :
    Buffers ι K × Store ι K :=
  let (x, s) :=
    if (s t.root).jointType ≠ .fixedJoint then
      let root := integrateRoot x dt (s t.root)
      ({ x with
          vo := x.vo + r • root.vo, w := x.w + r • root.w, dvo := x.dvo + r • root.dvo,
          dw := x.dw + r • root.dw },
        Function.update s t.root root)
    else (x, s)
  let s := t.jointLoop
    (fun i link ↦ { link with q := x.q0 i + dt * link.dq, dq := x.dq0 i + dt * link.ddq }) s
  ({ x with
      dq := t.jointLoop (fun i dq ↦ dq + r * (s i).dq) x.dq,
      ddq := t.jointLoop (fun i ddq ↦ ddq + r * (s i).ddq) x.ddq },
    s)

/-- The buffers at the start of a step. -/
def initialBuffers (t : LinkTree ι) (s : Store ι K) (x : Buffers ι K) : Buffers ι K :=
  let x :=
    if (s t.root).jointType ≠ .fixedJoint then
      { x with p0 := (s t.root).p, R0 := (s t.root).R, vo0 := (s t.root).vo, w0 := (s t.root).w }
    else x
  { x with
    vo := 0, w := 0, dvo := 0, dw := 0,
    q0 := t.jointLoop (fun i _ ↦ (s i).q) x.q0, dq0 := t.jointLoop (fun i _ ↦ (s i).dq) x.dq0,
    dq := t.jointLoop (fun _ _ ↦ 0) x.dq, ddq := t.jointLoop (fun _ _ ↦ 0) x.ddq }

/-- The end of a step: the last stage enters with the weight `1/6`. -/
def integrateLastStage (t : LinkTree ι) (timeStep : K) (x : Buffers ι K) (s : Store ι K) :
    Store ι K :=
  let s :=
    if (s t.root).jointType ≠ .fixedJoint then
      let root := s t.root
      let (p, R) := SE3exp x.p0 x.R0 x.w0 x.vo0 timeStep
      Function.update s t.root
        { root with
          p := p, R := R, vo := x.vo0 + timeStep • (x.dvo + (6 : K)⁻¹ • root.dvo),
          w := x.w0 + timeStep • (x.dw + (6 : K)⁻¹ • root.dw) }
    else s
  t.jointLoop (fun i link ↦
    { link with
      q := x.q0 i + (x.dq i + link.dq / 6) * timeStep,
      dq := x.dq0 i + (x.ddq i + link.ddq / 6) * timeStep }) s

/-- One time step by the Runge-Kutta method. -/
def calcMotionWithRungeKuttaMethod (t : LinkTree ι) (timeStep : K)
    (lastHalf phases : Store ι K → Store ι K) (x : Buffers ι K) (s : Store ι K) : Store ι K :=
  let x := initialBuffers t s x
  let s := lastHalf s
  let xs := integrateRungeKuttaOneStep t (1 / 6) (timeStep / 2) x s
  let s := phases xs.2
  let xs := integrateRungeKuttaOneStep t (2 / 6) (timeStep / 2) xs.1 s
  let s := phases xs.2
  let xs := integrateRungeKuttaOneStep t (2 / 6) timeStep xs.1 s
  let s := phases xs.2
  integrateLastStage t timeStep xs.1 s

end Integrate

/-! ### The joints -/

/-- The joints of a tree: its links without the root. -/
abbrev Joint (t : LinkTree ι) :=
  { i // i ∈ t.child.links }

/-- Positions or velocities of the joints. -/
abbrev JointVector (t : LinkTree ι) (K : Type*) :=
  Joint t → K

/-- The joint state: positions and velocities. -/
def jointState (t : LinkTree ι) (s : Store ι K) : JointVector t K × JointVector t K :=
  (fun j ↦ (s j).q, fun j ↦ (s j).dq)

/-- The joint motion: velocities and accelerations. -/
def jointMotion (t : LinkTree ι) (s : Store ι K) : JointVector t K × JointVector t K :=
  (fun j ↦ (s j).dq, fun j ↦ (s j).ddq)

/-- The joint state the buffers hold from the start of the step. -/
def Buffers.start (t : LinkTree ι) (x : Buffers ι K) : JointVector t K × JointVector t K :=
  (fun j ↦ x.q0 j, fun j ↦ x.dq0 j)

/-- The weighted sums of the stages. -/
def Buffers.sums (t : LinkTree ι) (x : Buffers ι K) : JointVector t K × JointVector t K :=
  (fun j ↦ x.dq j, fun j ↦ x.ddq j)

omit [DecidableEq ι] in
theorem joint_ne_root {t : LinkTree ι} (j : Joint t) : (j : ι) ≠ t.root := fun h ↦
  t.root_notMem_child (h ▸ j.2)

theorem initialBuffers_joint (t : LinkTree ι) (s : Store ι K) (x : Buffers ι K) (j : Joint t) :
    let x' := initialBuffers t s x
    x'.q0 j = (s j).q ∧ x'.dq0 j = (s j).dq ∧ x'.dq j = 0 ∧ x'.ddq j = 0 := by
  rw [initialBuffers]
  split_ifs <;> simp only [t.jointLoop_of_mem _ _ j.2, and_self]

theorem initialBuffers_start (t : LinkTree ι) (s : Store ι K) (x : Buffers ι K) :
    (initialBuffers t s x).start t = jointState t s :=
  Prod.ext (funext fun j ↦ (initialBuffers_joint t s x j).1)
    (funext fun j ↦ (initialBuffers_joint t s x j).2.1)

theorem initialBuffers_sums (t : LinkTree ι) (s : Store ι K) (x : Buffers ι K) :
    (initialBuffers t s x).sums t = 0 :=
  Prod.ext (funext fun j ↦ (initialBuffers_joint t s x j).2.2.1)
    (funext fun j ↦ (initialBuffers_joint t s x j).2.2.2)

/-! ### One stage -/

section Step

variable [CMath K] [LT K] [DecidableLT K] (t : LinkTree ι)

/-- What one stage does to one joint. -/
theorem integrateRungeKuttaOneStep_joint (r dt : K) (x : Buffers ι K) (s : Store ι K)
    (j : Joint t) :
    let xs := integrateRungeKuttaOneStep t r dt x s
    (xs.2 j).q = x.q0 j + dt * (s j).dq ∧ (xs.2 j).dq = x.dq0 j + dt * (s j).ddq ∧
      xs.1.dq j = x.dq j + r * (x.dq0 j + dt * (s j).ddq) ∧
      xs.1.ddq j = x.ddq j + r * (s j).ddq ∧ xs.1.q0 = x.q0 ∧ xs.1.dq0 = x.dq0 := by
  have hroot : Function.update s t.root (integrateRoot x dt (s t.root)) j = s j :=
    Function.update_of_ne (joint_ne_root j) _ _
  rw [integrateRungeKuttaOneStep]
  split_ifs
  · simp only [t.jointLoop_of_mem _ _ j.2, hroot, and_self]
  · simp only [t.jointLoop_of_mem _ _ j.2, and_self]

/-- The joints move from the start of the step along the motion they have. -/
theorem integrateRungeKuttaOneStep_jointState (r dt : K) (x : Buffers ι K) (s : Store ι K) :
    jointState t (integrateRungeKuttaOneStep t r dt x s).2 =
      x.start t + dt • jointMotion t s := by
  refine Prod.ext (funext fun j ↦ ?_) (funext fun j ↦ ?_)
  · exact (integrateRungeKuttaOneStep_joint t r dt x s j).1
  · exact (integrateRungeKuttaOneStep_joint t r dt x s j).2.1

theorem integrateRungeKuttaOneStep_start (r dt : K) (x : Buffers ι K) (s : Store ι K) :
    (integrateRungeKuttaOneStep t r dt x s).1.start t = x.start t := by
  refine Prod.ext (funext fun j ↦ ?_) (funext fun j ↦ ?_)
  · exact congrFun (integrateRungeKuttaOneStep_joint t r dt x s j).2.2.2.2.1 j
  · exact congrFun (integrateRungeKuttaOneStep_joint t r dt x s j).2.2.2.2.2 j

/-- The sums take in the **new** velocity and the acceleration that led to it. -/
theorem integrateRungeKuttaOneStep_sums (r dt : K) (x : Buffers ι K) (s : Store ι K) :
    (integrateRungeKuttaOneStep t r dt x s).1.sums t =
      x.sums t + r • ((x.start t + dt • jointMotion t s).2, (jointMotion t s).2) := by
  refine Prod.ext (funext fun j ↦ ?_) (funext fun j ↦ ?_)
  · exact (integrateRungeKuttaOneStep_joint t r dt x s j).2.2.1
  · exact (integrateRungeKuttaOneStep_joint t r dt x s j).2.2.2.1

theorem integrateLastStage_jointState (h : K) (x : Buffers ι K) (s : Store ι K) :
    jointState t (integrateLastStage t h x s) =
      x.start t + h • (x.sums t + (6 : K)⁻¹ • jointMotion t s) := by
  have hjoint : ∀ j : Joint t,
      (integrateLastStage t h x s j).q = x.q0 j + (x.dq j + (s j).dq / 6) * h ∧
      (integrateLastStage t h x s j).dq = x.dq0 j + (x.ddq j + (s j).ddq / 6) * h := by
    intro j
    rw [integrateLastStage]
    split_ifs
    · simp only [t.jointLoop_of_mem _ _ j.2, Function.update_of_ne (joint_ne_root j), and_self]
    · simp only [t.jointLoop_of_mem _ _ j.2, and_self]
  refine Prod.ext (funext fun j ↦ ?_) (funext fun j ↦ ?_)
  · refine (hjoint j).1.trans ?_
    show _ = x.q0 j + h * (x.dq j + (6 : K)⁻¹ * (s j).dq)
    ring
  · refine (hjoint j).2.trans ?_
    show _ = x.dq0 j + h * (x.ddq j + (6 : K)⁻¹ * (s j).ddq)
    ring

/-! ### The whole step -/

/-- A pass computes the joint accelerations at the state `s` by `A` and leaves the joint state
alone. -/
structure Accelerates (A : JointVector t K → JointVector t K → JointVector t K)
    (pass : Store ι K → Store ι K) (s : Store ι K) : Prop where
  state : jointState t (pass s) = jointState t s
  motion : jointMotion t (pass s) = RungeKutta.secondOrder A (jointState t s)

/-- The passes of a step compute accelerations by `A`: `lastHalf` at the start `s`, `phases` on a
set `G` of states that the step does not leave. -/
structure Realizes (A : JointVector t K → JointVector t K → JointVector t K)
    (G : Set (Store ι K)) (lastHalf phases : Store ι K → Store ι K) (s : Store ι K) : Prop where
  first : Accelerates t A lastHalf s
  first_mem : lastHalf s ∈ G
  later : ∀ s' ∈ G, Accelerates t A phases s'
  later_mem : ∀ s' ∈ G, phases s' ∈ G
  integrate_mem : ∀ s' ∈ G, ∀ r dt x, (integrateRungeKuttaOneStep t r dt x s').2 ∈ G

variable {t} {A : JointVector t K → JointVector t K → JointVector t K} {G : Set (Store ι K)}
  {lastHalf phases : Store ι K → Store ι K} {s : Store ι K}

/-- The state between two stages: the start of the step is kept, the sums are `S` and the motion
is the slope `k`. -/
structure AtStage (G : Set (Store ι K)) (y S k : JointVector t K × JointVector t K)
    (x : Buffers ι K) (s : Store ι K) : Prop where
  mem : s ∈ G
  start : x.start t = y
  sums : x.sums t = S
  motion : jointMotion t s = k

/-- One stage and the phases after it: the sums take in the new velocity and the old acceleration,
and the motion is the slope at the new state. -/
theorem AtStage.next {y S k : JointVector t K × JointVector t K} {x : Buffers ι K} {s₀ : Store ι K}
    (hA : Realizes t A G lastHalf phases s) (hs : AtStage G y S k x s₀) (r dt : K) :
    let xs := integrateRungeKuttaOneStep t r dt x s₀
    AtStage G y (S + r • ((y + dt • k).2, k.2)) (RungeKutta.secondOrder A (y + dt • k))
      xs.1 (phases xs.2) := by
  intro xs
  have hmem : xs.2 ∈ G := hA.integrate_mem s₀ hs.mem r dt x
  refine ⟨hA.later_mem _ hmem, ?_, ?_, ?_⟩
  · rw [integrateRungeKuttaOneStep_start, hs.start]
  · rw [integrateRungeKuttaOneStep_sums, hs.start, hs.sums, hs.motion]
  · rw [(hA.later _ hmem).motion, integrateRungeKuttaOneStep_jointState, hs.start, hs.motion]

open RungeKutta in
/-- The joint state after a step: each stage enters with its acceleration and with the velocity of
the stage after it. -/
theorem calcMotionWithRungeKuttaMethod_jointState (hA : Realizes t A G lastHalf phases s) (h : K)
    (x : Buffers ι K) :
    let f := secondOrder A
    let y := jointState t s
    jointState t (calcMotionWithRungeKuttaMethod t h lastHalf phases x s) =
      y + h • (0 + (1 / 6 : K) • ((slope₂ f h y).1, (slope₁ f y).2) +
        (2 / 6 : K) • ((slope₃ f h y).1, (slope₂ f h y).2) +
        (2 / 6 : K) • ((slope₄ f h y).1, (slope₃ f h y).2) + (6 : K)⁻¹ • slope₄ f h y) := by
  intro f y
  have h₁ : AtStage G y 0 (slope₁ f y) (initialBuffers t s x) (lastHalf s) :=
    ⟨hA.first_mem, initialBuffers_start t s x, initialBuffers_sums t s x, hA.first.motion⟩
  have h₂ := h₁.next hA (1 / 6) (h / 2)
  have h₃ := h₂.next hA (2 / 6) (h / 2)
  have h₄ := h₃.next hA (2 / 6) h
  rw [calcMotionWithRungeKuttaMethod, integrateLastStage_jointState, h₄.start, h₄.sums, h₄.motion]
  rfl

variable [CharZero K]

open RungeKutta in
/-- **The step is off the classical one** in the positions, by `h²/12 (4 l₃ - l₁)`; in the
velocities it is the classical one. -/
theorem calcMotionWithRungeKuttaMethod_eq (hA : Realizes t A G lastHalf phases s) (h : K)
    (x : Buffers ι K) :
    let f := secondOrder A
    let y := jointState t s
    jointState t (calcMotionWithRungeKuttaMethod t h lastHalf phases x s) =
      step f h y + ((h ^ 2 / 12) • ((4 : K) • (slope₃ f h y).2 - (slope₁ f y).2), 0) := by
  intro f y
  rw [calcMotionWithRungeKuttaMethod_jointState hA, step_secondOrder]
  refine Prod.ext ?_ ?_
  · show y.1 + h • (0 + (1 / 6 : K) • (slope₂ f h y).1 + (2 / 6 : K) • (slope₃ f h y).1 +
      (2 / 6 : K) • (slope₄ f h y).1 + (6 : K)⁻¹ • (slope₄ f h y).1) = y.1 + h • y.2 +
        (h ^ 2 / 6) • ((slope₁ f y).2 + (slope₂ f h y).2 + (slope₃ f h y).2) +
          (h ^ 2 / 12) • ((4 : K) • (slope₃ f h y).2 - (slope₁ f y).2)
    rw [slope₂_secondOrder_fst, slope₃_secondOrder_fst, slope₄_secondOrder_fst]
    module
  · show y.2 + h • (0 + (1 / 6 : K) • (slope₁ f y).2 + (2 / 6 : K) • (slope₂ f h y).2 +
      (2 / 6 : K) • (slope₃ f h y).2 + (6 : K)⁻¹ • (slope₄ f h y).2) = y.2 +
        (h / 6) • ((slope₁ f y).2 + (2 : K) • (slope₂ f h y).2 + (2 : K) • (slope₃ f h y).2 +
          (slope₄ f h y).2) + 0
    module

end Step

/-! ### The passes of the solver -/

section Passes

variable [CMath K] (t : LinkTree ι) (g : Vector3 K) (solve : Solver K)

/-- A link with another joint state. -/
def setJointState (link : Link K) (q dq : K) : Link K :=
  { link with q := q, dq := dq }

/-- The store `s` with the joint state `(q, dq)`. -/
def placeJoints (s : Store ι K) (q dq : JointVector t K) (i : ι) : Link K :=
  if hi : i ∈ t.child.links then setJointState (s i) (q ⟨i, hi⟩) (dq ⟨i, hi⟩) else s i

/-- The joint accelerations the phases compute over the body of `s`. -/
def jointAccelerations (s : Store ι K) (q dq : JointVector t K) : JointVector t K :=
  fun j ↦ (calcABMPhases t g solve (placeJoints t s q dq) j).ddq

/-- The states of the body of `s`: what is neither a joint state nor written by the phases is
as in `s`, and the root is where it is in `s`. -/
def bodyStates (s : Store ι K) : Set (Store ι K) :=
  { s' | (∀ i ∈ t.links, setJointState (inputs (s' i)) 0 0 = setJointState (inputs (s i)) 0 0) ∧
    rootState (s' t.root) = rootState (s t.root) }

variable {t} {s s' : Store ι K}

/-- With a fixed root, a stage only moves the joints. -/
theorem integrateRungeKuttaOneStep_of_fixed [LT K] [DecidableLT K] (r dt : K) (x : Buffers ι K)
    (hfixed : (s t.root).jointType = .fixedJoint) :
    (integrateRungeKuttaOneStep t r dt x s).2 = t.jointLoop
      (fun i link ↦ setJointState link (x.q0 i + dt * link.dq) (x.dq0 i + dt * link.ddq)) s := by
  rw [integrateRungeKuttaOneStep, if_neg (not_not.2 hfixed)]
  rfl

omit [DecidableEq ι] [CMath K] in
theorem setJointState_inputs (link : Link K) (q dq : K) :
    setJointState (setJointState (inputs link) 0 0) q dq = inputs (setJointState link q dq) :=
  rfl

omit [CMath K] in
/-- The states of a body differ in their joint state only. -/
theorem sameInputs_placeJoints (hs : s' ∈ bodyStates t s) :
    SameInputs t s' (placeJoints t s (jointState t s').1 (jointState t s').2) := by
  refine ⟨fun i hi ↦ ?_, ?_⟩
  · by_cases hchild : i ∈ t.child.links
    · rw [placeJoints, dif_pos hchild, ← setJointState_inputs, ← hs.1 i hi]
      rfl
    · obtain rfl : i = t.root := (List.mem_cons.1 hi).resolve_right hchild
      rw [placeJoints, dif_neg hchild, ← inputs_rootState, hs.2, inputs_rootState]
  · rw [placeJoints, dif_neg t.root_notMem_child, hs.2]

section

omit [DecidableEq ι] [CMath K]

theorem SameInputs.mem_bodyStates (h : SameInputs t s' s) {s₀ : Store ι K}
    (hs : s ∈ bodyStates t s₀) : s' ∈ bodyStates t s₀ :=
  ⟨fun i hi ↦ by rw [h.link i hi, hs.1 i hi], h.root.trans hs.2⟩

theorem SameInputs.jointState_eq (h : SameInputs t s' s) : jointState t s' = jointState t s := by
  have hj : ∀ j : Joint t, inputs (s' j) = inputs (s j) := fun j ↦
    h.link j (List.mem_cons_of_mem _ j.2)
  exact Prod.ext (funext fun j ↦ (congrArg Link.q (hj j) :))
    (funext fun j ↦ (congrArg Link.dq (hj j) :))

end

/-- On the states of a body, the phases compute its joint accelerations. -/
theorem accelerates_calcABMPhases (hs : s' ∈ bodyStates t s) :
    Accelerates t (jointAccelerations t g solve s) (calcABMPhases t g solve) s' := by
  have hkeep : jointState t (calcABMPhases t g solve s') = jointState t s' :=
    (sameInputs_calcABMPhases g solve s').jointState_eq
  refine ⟨hkeep, Prod.ext (congrArg Prod.snd hkeep) (funext fun j ↦ ?_)⟩
  exact (solution_calcABMPhases_congr g solve (sameInputs_placeJoints hs) j
    (List.mem_cons_of_mem _ j.2)).2 (joint_ne_root j)

/-- **The passes of the solver realize an acceleration function** over a body with a fixed root. -/
theorem realizes_calcABMPhases [LT K] [DecidableLT K] (hroot : (s t.root).jointType = .fixedJoint) :
    Realizes t (jointAccelerations t g solve s) (bodyStates t s) (calcABMLastHalf t solve)
      (calcABMPhases t g solve) (calcABMFirstHalf t g s) := by
  have hself : s ∈ bodyStates t s := ⟨fun _ _ ↦ rfl, rfl⟩
  have hfirst := sameInputs_calcABMFirstHalf (t := t) g s
  have hphases := accelerates_calcABMPhases g solve hself
  refine ⟨⟨?_, ?_⟩, ?_, fun s' hs ↦ accelerates_calcABMPhases g solve hs, fun s' hs ↦ ?_,
    fun s' hs r dt x ↦ ?_⟩
  · rw [calcABMLastHalf_calcABMFirstHalf, hphases.state, hfirst.jointState_eq]
  · rw [calcABMLastHalf_calcABMFirstHalf, hphases.motion, hfirst.jointState_eq]
  · rw [calcABMLastHalf_calcABMFirstHalf]
    exact (sameInputs_calcABMPhases g solve s).mem_bodyStates hself
  · exact (sameInputs_calcABMPhases g solve s').mem_bodyStates hs
  · have hfixed : (s' t.root).jointType = .fixedJoint :=
      (congrArg Link.jointType hs.2 :).trans hroot
    rw [integrateRungeKuttaOneStep_of_fixed r dt x hfixed]
    refine ⟨fun i hi ↦ ?_, ?_⟩
    · by_cases hchild : i ∈ t.child.links
      · rw [t.jointLoop_of_mem _ _ hchild]
        exact hs.1 i hi
      · rw [t.jointLoop_of_notMem _ _ hchild]
        exact hs.1 i hi
    · rw [t.jointLoop_of_notMem _ _ t.root_notMem_child]
      exact hs.2

end Passes

/-! ### When the step is the classical one -/

section Classical

variable [CMath K] [LT K] [DecidableLT K] [CharZero K] {t : LinkTree ι}
  {A : JointVector t K → JointVector t K → JointVector t K} {G : Set (Store ι K)}
  {lastHalf phases : Store ι K → Store ι K} {s : Store ι K}

open RungeKutta in
/-- **When the step is the classical one**: for a step of length zero, or when at every joint the
acceleration at the start is four times the one at the second half-step state. -/
theorem isClassicalStep_iff (hA : Realizes t A G lastHalf phases s) (h : K) (x : Buffers ι K) :
    let f := secondOrder A
    let y := jointState t s
    jointState t (calcMotionWithRungeKuttaMethod t h lastHalf phases x s) = step f h y ↔
      h = 0 ∨ ∀ j, (slope₁ f y).2 j = 4 * (slope₃ f h y).2 j := by
  intro f y
  have hne : (12 : K) ≠ 0 := by norm_num
  rw [calcMotionWithRungeKuttaMethod_eq hA, add_eq_left, Prod.mk_eq_zero, smul_eq_zero,
    div_eq_zero_iff, or_iff_left hne, pow_eq_zero_iff two_ne_zero, and_iff_left rfl, sub_eq_zero]
  refine or_congr_right ⟨fun heq j ↦ (congrFun heq j).symm, fun heq ↦ ?_⟩
  exact funext fun j ↦ (heq j).symm

/-- A slider of unit mass on a fixed base, pushed with a unit force. -/
def slider (i : Fin 2) : Link ℚ :=
  if i = 0 then Link.blank
  else
    { Link.blank with
      jointType := .slideJoint, jointId := 0, d := ![1, 0, 0], m := 1, I := 1, u := 1 }

/-- Empty buffers. -/
def Buffers.blank : Buffers ι K :=
  ⟨0, 0, 0, 0, 0, 0, 0, 0, 0, 0, 0, 0⟩

/-- The slider at rest, ready for a step. -/
def sliderStart : Store (Fin 2) ℚ :=
  calcABMFirstHalf oneJointTree 0 slider

/-- The slider after a step of length one; the solver of the root is not called. -/
def sliderEnd : Store (Fin 2) ℚ :=
  calcMotionWithRungeKuttaMethod oneJointTree 1 (calcABMLastHalf oneJointTree fun _ b ↦ b)
    (calcABMPhases oneJointTree 0 fun _ b ↦ b) Buffers.blank sliderStart

/-- The acceleration function of the slider. -/
def sliderAcceleration : JointVector oneJointTree ℚ → JointVector oneJointTree ℚ →
    JointVector oneJointTree ℚ :=
  jointAccelerations oneJointTree 0 (fun _ b ↦ b) slider

theorem isClassicalStep_iff_slider :
    let f := RungeKutta.secondOrder sliderAcceleration
    let y := jointState oneJointTree sliderStart
    jointState oneJointTree sliderEnd = RungeKutta.step f (1 : ℚ) y ↔
      (1 : ℚ) = 0 ∨ ∀ j, (RungeKutta.slope₁ f y).2 j = 4 * (RungeKutta.slope₃ f (1 : ℚ) y).2 j :=
  isClassicalStep_iff (realizes_calcABMPhases 0 _ rfl) 1 Buffers.blank

/-- From rest, the slider moves by three quarters in a unit step, where the classical rule has one
half. -/
theorem not_isClassicalStep_slider :
    jointState oneJointTree sliderEnd ≠
      RungeKutta.step (RungeKutta.secondOrder sliderAcceleration) (1 : ℚ)
        (jointState oneJointTree sliderStart) := by
  intro h
  have h1 : (jointState oneJointTree sliderEnd).1 ⟨1, by decide⟩ =
      (RungeKutta.step (RungeKutta.secondOrder sliderAcceleration) (1 : ℚ)
        (jointState oneJointTree sliderStart)).1 ⟨1, by decide⟩ :=
    congrFun (congrArg Prod.fst h) _
  revert h1
  decide +kernel

end Classical

end ForwardDynamicsABM

end OpenHRP
