import OpenHRP.Dynamics.ScrewMotion

/-!
# Runs of the articulated-body simulation

`calcNextState` moves a body by one of two integration methods, may normalize the attitude of the
root, and runs the first half of the phases. Over any run the attitude of the root stays a
rotation, and so the normalization changes nothing (`isRotation_run`).
-/

open Matrix

namespace OpenHRP

namespace ForwardDynamicsABM

section Steps

variable {ι K : Type*} [DecidableEq ι] [Field K] [CMath K] [LT K] [DecidableLT K]

/-- One time step by the Euler method. -/
def calcMotionWithEulerMethod (t : LinkTree ι) (timeStep : K) (lastHalf : Store ι K → Store ι K)
    (s : Store ι K) : Store ι K :=
  let s := lastHalf s
  let s :=
    if (s t.root).jointType ≠ .fixedJoint then
      let root := s t.root
      let (p, R) := SE3exp root.p root.R root.w root.vo timeStep
      Function.update s t.root
        { root with
          p := p, R := R, vo := root.vo + timeStep • root.dvo, w := root.w + timeStep • root.dw }
    else s
  t.jointLoop (fun _ link ↦
    { link with q := link.q + link.dq * timeStep, dq := link.dq + link.ddq * timeStep }) s

def normalized (v : Vector3 K) : Vector3 K :=
  (CMath.sqrt (v ⬝ᵥ v))⁻¹ • v

/-- The axes of an attitude, made orthonormal from the first one on. -/
def normalizeAttitude (R : Matrix33 K) : Matrix33 K :=
  let x := normalized (R.col 0)
  let z := normalized (cross x (R.col 1))
  (of ![x, cross z x, z])ᵀ

inductive IntegrationMode where
  | EULER_METHOD
  | RUNGEKUTTA_METHOD

/-- The motion of a time step: how it is integrated, its length, and what the buffers hold of
earlier steps. -/
def calcMotion (t : LinkTree ι) (g : Vector3 K) (solve : Solver K) (s : Store ι K) :
    IntegrationMode × K × Buffers ι K → Store ι K
  | (.EULER_METHOD, timeStep, _) =>
    calcMotionWithEulerMethod t timeStep (calcABMLastHalf t solve) s
  | (.RUNGEKUTTA_METHOD, timeStep, x) =>
    calcMotionWithRungeKuttaMethod t timeStep (calcABMLastHalf t solve) (calcABMPhases t g solve)
      x s

/-- `calcNextState`, without sensors. The customizer of the body may set forces. -/
def calcNextState (t : LinkTree ι) (g : Vector3 K) (solve : Solver K)
    (setVirtualJointForces : Store ι K → Store ι K) (rootAttitudeNormalizationEnabled : Bool)
    (s : Store ι K) (step : IntegrationMode × K × Buffers ι K) : Store ι K :=
  let s := calcMotion t g solve s step
  let s :=
    if rootAttitudeNormalizationEnabled then
      Function.update s t.root { s t.root with R := normalizeAttitude (s t.root).R }
    else s
  setVirtualJointForces (calcABMFirstHalf t g s)

end Steps

/-! ### One step -/

theorem isRotation_SE3exp {R0 : Matrix33 ℝ} (h : IsRotation R0) (p0 w vo : Vector3 ℝ) (dt : ℝ) :
    IsRotation (SE3exp p0 R0 w vo dt).2 := by
  rw [SE3exp]
  split_ifs with hw
  · exact h
  · exact (isRotation_rodrigues (axis_dotProduct_self hw) (Real.sin_sq_add_cos_sq _)).mul h

theorem normalizeAttitude_eq {R : Matrix33 ℝ} (h : IsRotation R) : normalizeAttitude R = R := by
  have hunit (j : Fin 3) : normalized (R.col j) = R.col j := by
    have hone : R.col j ⬝ᵥ R.col j = 1 := by
      simpa [dotProduct, Fin.sum_univ_three] using h.column_mul_column j j
    rw [normalized, hone, show CMath.sqrt (1 : ℝ) = 1 from Real.sqrt_one, inv_one, one_smul]
  have hz : cross (R.col 0) (R.col 1) = R.col 2 := by
    ext i
    rw [col_apply, h.entry_eq_adjugate, adjugate_fin_three]
    fin_cases i <;> simp [cross, cross_apply] <;> ring
  have hy : cross (R.col 2) (R.col 0) = R.col 1 := by
    ext i
    rw [col_apply, h.entry_eq_adjugate, adjugate_fin_three]
    fin_cases i <;> simp [cross, cross_apply] <;> ring
  rw [normalizeAttitude, hunit, hz, hunit, hy]
  ext i j
  fin_cases j <;> rfl

/-! ### Runs -/

section Runs

variable {ι : Type*} [DecidableEq ι] {t : LinkTree ι} {g : Vector3 ℝ} {solve : Solver ℝ}

theorem jointLoop_root (f : ι → Link ℝ → Link ℝ) (s : Store ι ℝ) :
    t.jointLoop f s t.root = s t.root :=
  t.jointLoop_of_notMem _ _ t.root_notMem_child

theorem rootState_calcABMLastHalf (s : Store ι ℝ) (i : ι) :
    rootState (calcABMLastHalf t solve s i) = rootState (s i) := by
  rw [calcABMLastHalf, rootState_calcABMPhase3]
  refine sweep_field rootState (fun i s ↦ ?_) _ _ i
  show rootState (calcABMPhase2Part2Link _ _ _) = _
  rw [calcABMPhase2Part2Link_eq]
  dsimp only
  split_ifs <;> rfl

/-- The attitude of the root, and for a free root that of the start of the step, are rotations. -/
structure Turning (t : LinkTree ι) (x : Buffers ι ℝ) (s : Store ι ℝ) : Prop where
  root : IsRotation (s t.root).R
  start : (s t.root).jointType ≠ .fixedJoint → IsRotation x.R0

variable {x : Buffers ι ℝ} {s : Store ι ℝ}

omit [DecidableEq ι] in
theorem Turning.pass (h : Turning t x s) {s' : Store ι ℝ}
    (hs : rootState (s' t.root) = rootState (s t.root)) : Turning t x s' :=
  ⟨(congrArg Link.R hs :) ▸ h.root, fun hf ↦ h.start ((congrArg Link.jointType hs :) ▸ hf)⟩

theorem Turning.joints (h : Turning t x s) (f : ι → Link ℝ → Link ℝ) :
    Turning t x (t.jointLoop f s) :=
  h.pass (congrArg rootState (jointLoop_root f s))

theorem Turning.stage (h : Turning t x s) (r dt : ℝ) :
    Turning t (integrateRungeKuttaOneStep t r dt x s).1
      (integrateRungeKuttaOneStep t r dt x s).2 := by
  rw [integrateRungeKuttaOneStep]
  split_ifs with hfree
  · have hturned : Turning t x (Function.update s t.root (integrateRoot x dt (s t.root))) :=
      ⟨by
        rw [Function.update_self]
        exact isRotation_SE3exp (h.start hfree) _ _ _ _, fun _ ↦ h.start hfree⟩
    exact ⟨(hturned.joints _).root, (hturned.joints _).start⟩
  · exact ⟨(h.joints _).root, (h.joints _).start⟩

theorem Turning.last (h : Turning t x s) (timeStep : ℝ) :
    IsRotation (integrateLastStage t timeStep x s t.root).R := by
  rw [integrateLastStage, jointLoop_root]
  split_ifs with hfree
  · simp only [Function.update_self]
    exact isRotation_SE3exp (h.start hfree) _ _ _ _
  · exact h.root

theorem turning_initialBuffers (h : IsRotation (s t.root).R) :
    Turning t (initialBuffers t s x) s := by
  refine ⟨h, fun hfree ↦ ?_⟩
  rw [initialBuffers, if_pos hfree]
  exact h

theorem isRotation_calcMotionWithRungeKuttaMethod (timeStep : ℝ) (h : IsRotation (s t.root).R) :
    IsRotation (calcMotionWithRungeKuttaMethod t timeStep (calcABMLastHalf t solve)
      (calcABMPhases t g solve) x s t.root).R :=
  have phases {x : Buffers ι ℝ} {s : Store ι ℝ} (h : Turning t x s) :
      Turning t x (calcABMPhases t g solve s) := h.pass (sameInputs_calcABMPhases g solve s).root
  (phases ((phases ((phases (((turning_initialBuffers h).pass
    (rootState_calcABMLastHalf s _)).stage _ _)).stage _ _)).stage _ _)).last timeStep

theorem isRotation_calcMotionWithEulerMethod (timeStep : ℝ) (h : IsRotation (s t.root).R) :
    IsRotation (calcMotionWithEulerMethod t timeStep (calcABMLastHalf t solve) s t.root).R := by
  have hkeep : (calcABMLastHalf t solve s t.root).R = (s t.root).R :=
    (congrArg Link.R (rootState_calcABMLastHalf s t.root) :)
  rw [calcMotionWithEulerMethod, jointLoop_root]
  split_ifs with hfree
  · simp only [Function.update_self, hkeep]
    exact isRotation_SE3exp h _ _ _ _
  · exact hkeep ▸ h

/-- **Attitudes stay rotations.** However the time steps of a run are made, the attitude of the root
stays a rotation, and it makes no difference whether it is normalized. -/
theorem isRotation_run {setVirtualJointForces : Store ι ℝ → Store ι ℝ}
    (hforces : ∀ s, (setVirtualJointForces s t.root).R = (s t.root).R)
    (h : IsRotation (s t.root).R) (steps : List (IntegrationMode × ℝ × Buffers ι ℝ)) :
    IsRotation (steps.foldl (calcNextState t g solve setVirtualJointForces false) s t.root).R ∧
      steps.foldl (calcNextState t g solve setVirtualJointForces true) s =
        steps.foldl (calcNextState t g solve setVirtualJointForces false) s := by
  induction steps generalizing s with
  | nil => exact ⟨h, rfl⟩
  | cons step steps ih =>
    have hmoved : IsRotation (calcMotion t g solve s step t.root).R := by
      rcases step with ⟨_ | _, timeStep, x⟩
      · exact isRotation_calcMotionWithEulerMethod timeStep h
      · exact isRotation_calcMotionWithRungeKuttaMethod timeStep h
    have hplain : calcNextState t g solve setVirtualJointForces true s step =
        calcNextState t g solve setVirtualJointForces false s step := by
      simp [calcNextState, normalizeAttitude_eq hmoved]
    have hnext : IsRotation
        (calcNextState t g solve setVirtualJointForces false s step t.root).R := by
      have hkeep := (sameInputs_calcABMFirstHalf (t := t) g (calcMotion t g solve s step)).root
      rw [calcNextState, hforces]
      exact (congrArg Link.R hkeep :) ▸ hmoved
    rw [List.foldl_cons, List.foldl_cons, hplain]
    exact ih hnext

theorem isRotation_run_spinning :
    let s : Store (Fin 2) ℝ := fun _ ↦ { Link.blank with jointType := .freeJoint, w := 1 }
    let next := calcNextState oneJointTree 0 (fun _ b ↦ b) id
    let steps := [(.EULER_METHOD, 1, Buffers.blank), (.RUNGEKUTTA_METHOD, 1, Buffers.blank)]
    IsRotation (steps.foldl (next false) s oneJointTree.root).R ∧
      steps.foldl (next true) s = steps.foldl (next false) s :=
  isRotation_run (fun _ ↦ rfl) IsRotation.one _

end Runs

end ForwardDynamicsABM

end OpenHRP
