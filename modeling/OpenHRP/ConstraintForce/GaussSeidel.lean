import OpenHRP.Model.RealMath

/-!
# The projected Gauss-Seidel solver

`solveMCPByProjectedGaussSeidel` looks for contact forces `x` with `M x + b` as the complementarity
and friction conditions ask. One sweep updates `x` in place: the contact normals, the rows of the
closed-loop joints, and then, two rows for each contact, the friction forces.

A sweep leaves forces that satisfy the bounds, whatever it started from (`Bounded`); and forces
that a sweep does not change satisfy the conditions on `M x + b` in the rows that are not switched
off (`Balanced`). A row is switched off by a marker on the diagonal.
-/

namespace OpenHRP.ConstraintForce

variable {K : Type*}

/-- `numeric_limits<double>::max()`, which marks a row that is switched off. -/
def doubleMax [Ring K] : K :=
  (2 ^ 53 - 1) * 2 ^ 971

/-- The mixed complementarity problem, with the numbers of its rows: the contact normals, all
constraints (contact normals and joints), and the friction forces after these. -/
structure MCP (K : Type*) where
  globalNumContactNormalVectors : ℕ
  globalNumConstraintVectors : ℕ
  globalNumFrictionVectors : ℕ
  M : ℕ → ℕ → K
  b : ℕ → K
  contactIndexToMu : ℕ → K

namespace MCP

def size (P : MCP K) : ℕ :=
  P.globalNumConstraintVectors + P.globalNumFrictionVectors

/-- The two friction rows of a contact. -/
def frictionX (P : MCP K) (contactIndex : ℕ) : ℕ :=
  P.globalNumConstraintVectors + 2 * contactIndex

def frictionY (P : MCP K) (contactIndex : ℕ) : ℕ :=
  P.globalNumConstraintVectors + 2 * contactIndex + 1

end MCP

/-- What a sweep changes: the solution, and the bound `mu * f` of every contact. -/
structure Forces (K : Type*) where
  x : ℕ → K
  mcpHi : ℕ → K

section Solver

variable [Field K] [LinearOrder K] [CMath K] (P : MCP K)

/-- The columns of the rows whose diagonal is small are cleared, and their diagonal is marked. -/
def clearSingularPointConstraintsOfClosedLoopConnections (n : ℕ) (M : ℕ → ℕ → K) : ℕ → ℕ → K :=
  (List.range n).foldl (fun M i ↦
    if M i i < 1 / 10 ^ 4 then
      fun j k ↦ if k = i then (if j = i then doubleMax else 0) else M j k
    else M) M

/-- The problem after the singular rows of closed loops are switched off. -/
def MCP.clearSingular : MCP K :=
  { P with M := clearSingularPointConstraintsOfClosedLoopConnections P.size P.M }

/-- The value that solves row `j` for its own unknown; zero in a row that is switched off. -/
def solveRow (x : ℕ → K) (j : ℕ) : K :=
  if P.M j j = doubleMax then 0
  else
    let sum := (List.range P.size).foldl (fun sum k ↦ sum + P.M j k * x k) (-P.M j j * x j)
    (-P.b j - sum) / P.M j j

/-! ### A sweep of `solveMCPByProjectedGaussSeidelMain` -/

/-- The body of the loop over the contact normals. -/
def contactStep (s : Forces K) (j : ℕ) : Forces K :=
  let xx := solveRow P s.x j
  let xj := if xx < 0 then 0 else xx
  { x := Function.update s.x j xj
    mcpHi := Function.update s.mcpHi j (P.contactIndexToMu j * xj) }

/-- The body of the loop over the other constraints. -/
def jointStep (s : Forces K) (j : ℕ) : Forces K :=
  { s with x := Function.update s.x j (solveRow P s.x j) }

/-- The friction force `f` of a contact, cut down to the length `fmax`. -/
def projectToCone (fmax fx0 fy0 : K) : K × K :=
  let fmag2 := fx0 * fx0 + fy0 * fy0
  if fmax * fmax < fmag2 then
    let s := fmax / CMath.sqrt fmag2
    (s * fx0, s * fy0)
  else (fx0, fy0)

/-- The body of the loop over the friction forces, two rows at a time. -/
def frictionStep (s : Forces K) (contactIndex : ℕ) : Forces K :=
  let fx0 := solveRow P s.x (P.frictionX contactIndex)
  let fy0 := solveRow P s.x (P.frictionY contactIndex)
  let f := projectToCone (s.mcpHi contactIndex) fx0 fy0
  { s with
    x := Function.update (Function.update s.x (P.frictionX contactIndex) f.1)
      (P.frictionY contactIndex) f.2 }

def contactLoop (n : ℕ) (s : Forces K) : Forces K :=
  (List.range n).foldl (contactStep P) s

def jointLoop (n : ℕ) (s : Forces K) : Forces K :=
  ((List.range n).map (P.globalNumContactNormalVectors + ·)).foldl (jointStep P) s

def frictionLoop (n : ℕ) (s : Forces K) : Forces K :=
  (List.range n).foldl (frictionStep P) s

/-- One sweep. -/
def sweepMain (s : Forces K) : Forces K :=
  frictionLoop P ((P.globalNumFrictionVectors + 1) / 2)
    (jointLoop P (P.globalNumConstraintVectors - P.globalNumContactNormalVectors)
      (contactLoop P P.globalNumContactNormalVectors s))

def solveMCPByProjectedGaussSeidelMain (numIteration : ℕ) (s : Forces K) : Forces K :=
  (sweepMain P)^[numIteration] s

/-! ### The sweeps of `solveMCPByProjectedGaussSeidelInitial` -/

/-- The forces with the factor `r`, which grows by `rstep` from row to row. -/
structure Relaxed (K : Type*) where
  forces : Forces K
  r : K

def contactStepInitial (rstep : K) (s : Relaxed K) (j : ℕ) : Relaxed K :=
  let xx := solveRow P s.forces.x j
  let xj := if xx < 0 then 0 else s.r * xx
  { forces :=
      { x := Function.update s.forces.x j xj
        mcpHi := Function.update s.forces.mcpHi j (P.contactIndexToMu j * xj) }
    r := s.r + rstep }

def jointStepInitial (rstep : K) (s : Relaxed K) (j : ℕ) : Relaxed K :=
  { forces := { s.forces with
      x := Function.update s.forces.x j (s.r * solveRow P s.forces.x j) }
    r := s.r + rstep }

def frictionStepInitial (rstep : K) (s : Relaxed K) (contactIndex : ℕ) : Relaxed K :=
  let fx0 := solveRow P s.forces.x (P.frictionX contactIndex)
  let fy0 := solveRow P s.forces.x (P.frictionY contactIndex)
  let f := projectToCone (s.forces.mcpHi contactIndex) fx0 fy0
  { forces := { s.forces with
      x := Function.update
        (Function.update s.forces.x (P.frictionX contactIndex) (s.r * f.1))
        (P.frictionY contactIndex) (s.r * f.2) }
    r := s.r + (rstep + rstep) }

def sweepInitial (rstep : K) (s : Relaxed K) : Relaxed K :=
  let s := (List.range P.globalNumContactNormalVectors).foldl (contactStepInitial P rstep) s
  let s := ((List.range (P.globalNumConstraintVectors - P.globalNumContactNormalVectors)).map
    (P.globalNumContactNormalVectors + ·)).foldl (jointStepInitial P rstep) s
  (List.range ((P.globalNumFrictionVectors + 1) / 2)).foldl (frictionStepInitial P rstep) s

def solveMCPByProjectedGaussSeidelInitial (numIteration : ℕ) (s : Forces K) : Forces K :=
  let rstep : K := 1 / (numIteration * P.size : ℕ)
  ((sweepInitial P rstep)^[numIteration] ⟨s, 0⟩).forces

/-! ### The solver -/

/-- The norm of a vector of the problem. -/
def norm (x : ℕ → K) : K :=
  CMath.sqrt (((List.range P.size).map fun j ↦ x j * x j).sum)

/-- The error of a solution against the one a sweep before. -/
def relError (x x0 : ℕ → K) : K :=
  if 1 / 10 ^ 8 < norm P x then norm P (fun j ↦ x j - x0 j) / norm P x
  else norm P (fun j ↦ x j - x0 j)

/-- The settings of the solver. -/
structure Iterations (K : Type*) where
  maxNumGaussSeidelIteration : ℕ
  numGaussSeidelInitialIteration : ℕ
  gaussSeidelMaxRelError : K

/-- The loop over blocks of ten sweeps, which ends early on a small error. -/
def blockLoop (maxRelError : K) : ℕ → Forces K → Forces K
  | 0, s => s
  | n + 1, s =>
    let s := solveMCPByProjectedGaussSeidelMain P 9 s
    let s' := solveMCPByProjectedGaussSeidelMain P 1 s
    if relError P s'.x s.x < maxRelError then s' else blockLoop maxRelError n s'

def solveMCPByProjectedGaussSeidel (iterations : Iterations K) (s : Forces K) : Forces K :=
  let s := if 0 < iterations.numGaussSeidelInitialIteration then
      solveMCPByProjectedGaussSeidelInitial P iterations.numGaussSeidelInitialIteration s
    else s
  let numBlockLoops := iterations.maxNumGaussSeidelIteration / 10
  blockLoop P iterations.gaussSeidelMaxRelError (if numBlockLoops = 0 then 1 else numBlockLoops) s

end Solver

/-! ### What one row does -/

section Rows

variable {P : MCP ℝ} {s : Forces ℝ}

/-- Row `j` of `M x + b`. -/
def residual (P : MCP ℝ) (x : ℕ → ℝ) (j : ℕ) : ℝ :=
  ∑ k ∈ Finset.range P.size, P.M j k * x k + P.b j

theorem foldl_add_eq_sum (f : ℕ → ℝ) (a : ℝ) (n : ℕ) :
    (List.range n).foldl (fun sum k ↦ sum + f k) a = a + ∑ k ∈ Finset.range n, f k := by
  induction n with
  | zero => simp
  | succ n ih =>
    rw [List.range_succ, List.foldl_append, ih, Finset.sum_range_succ]
    exact add_assoc _ _ _

/-- Solving a row moves its unknown by the residual of the row. -/
theorem solveRow_eq {x : ℕ → ℝ} {j : ℕ} (hmarker : P.M j j ≠ doubleMax) (hdiag : 0 < P.M j j) :
    solveRow P x j = x j - residual P x j / P.M j j := by
  rw [solveRow, if_neg hmarker, residual]
  simp only [foldl_add_eq_sum]
  field_simp
  ring

theorem solveRow_of_marker {x : ℕ → ℝ} {j : ℕ} (hmarker : P.M j j = doubleMax) :
    solveRow P x j = 0 :=
  if_pos hmarker

/-- A row that its own solution does not change has no residual. -/
theorem residual_eq_zero {x : ℕ → ℝ} {j : ℕ} (hmarker : P.M j j ≠ doubleMax) (hdiag : 0 < P.M j j)
    (h : solveRow P x j = x j) : residual P x j = 0 := by
  rw [solveRow_eq hmarker hdiag] at h
  have hzero : residual P x j / P.M j j = 0 := by linarith
  exact (div_eq_zero_iff.1 hzero).resolve_right hdiag.ne'

/-- A force that is cut down lies on the cone. -/
theorem sq_add_sq_scaled {fmax fx0 fy0 : ℝ} (hlong : fmax * fmax < fx0 * fx0 + fy0 * fy0) :
    (fmax / Real.sqrt (fx0 * fx0 + fy0 * fy0) * fx0) ^ 2 +
      (fmax / Real.sqrt (fx0 * fx0 + fy0 * fy0) * fy0) ^ 2 = fmax ^ 2 := by
  set n := fx0 * fx0 + fy0 * fy0 with hn
  have hpos : 0 < n := (mul_self_nonneg fmax).trans_lt hlong
  calc (fmax / Real.sqrt n * fx0) ^ 2 + (fmax / Real.sqrt n * fy0) ^ 2
      = fmax ^ 2 / Real.sqrt n ^ 2 * n := by rw [hn]; ring
    _ = fmax ^ 2 := by rw [Real.sq_sqrt hpos.le, div_mul_cancel₀ _ hpos.ne']

theorem projectToCone_sq_le (fmax fx0 fy0 : ℝ) :
    (projectToCone fmax fx0 fy0).1 ^ 2 + (projectToCone fmax fx0 fy0).2 ^ 2 ≤ fmax ^ 2 := by
  rw [projectToCone]
  split_ifs with hlong
  · exact (sq_add_sq_scaled hlong).le
  · show fx0 ^ 2 + fy0 ^ 2 ≤ fmax ^ 2
    nlinarith only [hlong]

/-- A force inside the cone was not cut down. -/
theorem projectToCone_eq {fmax fx0 fy0 : ℝ}
    (h : (projectToCone fmax fx0 fy0).1 ^ 2 + (projectToCone fmax fx0 fy0).2 ^ 2 < fmax ^ 2) :
    projectToCone fmax fx0 fy0 = (fx0, fy0) := by
  rw [projectToCone] at h ⊢
  split_ifs at h ⊢ with hlong
  · exact absurd (sq_add_sq_scaled hlong) h.ne
  · rfl

theorem projectToCone_zero_left (fmax fy0 : ℝ) : (projectToCone fmax 0 fy0).1 = 0 := by
  rw [projectToCone]
  split_ifs <;> simp

theorem projectToCone_zero_right (fmax fx0 : ℝ) : (projectToCone fmax fx0 0).2 = 0 := by
  rw [projectToCone]
  split_ifs <;> simp

end Rows

/-! ### What the loops do -/

section Loops

variable {P : MCP ℝ}

/-- Both friction rows of a contact come after the constraints, and contacts do not share them. -/
theorem frictionX_ne {c c' : ℕ} : P.frictionX c ≠ P.frictionY c' := by
  simp only [MCP.frictionX, MCP.frictionY]
  omega

/-- After the first `n` contacts: each of them has been updated once, from the state the loop had
reached, and its bound is set. -/
structure ContactsDone (P : MCP ℝ) (n : ℕ) (s s' : Forces ℝ) : Prop where
  step_eq : ∀ j < n, s'.x j = if solveRow P (contactLoop P j s).x j < 0 then 0
    else solveRow P (contactLoop P j s).x j
  mcpHi_eq : ∀ j < n, s'.mcpHi j = P.contactIndexToMu j * s'.x j
  x_eq : ∀ j, n ≤ j → s'.x j = s.x j

variable (n : ℕ)

theorem contactLoop_succ (s : Forces ℝ) :
    contactLoop P (n + 1) s = contactStep P (contactLoop P n s) n := by
  rw [contactLoop, List.range_succ, List.foldl_append]
  rfl

theorem contactsDone (s : Forces ℝ) : ContactsDone P n s (contactLoop P n s) := by
  induction n with
  | zero => exact ⟨by simp, by simp, fun _ _ ↦ rfl⟩
  | succ n ih =>
    rw [contactLoop_succ]
    set s' := contactLoop P n s with hs'
    have hself : (contactStep P s' n).x n =
        if solveRow P s'.x n < 0 then 0 else solveRow P s'.x n :=
      Function.update_self _ _ _
    have hne : ∀ j, j ≠ n → (contactStep P s' n).x j = s'.x j :=
      fun j hj ↦ Function.update_of_ne hj _ _
    refine ⟨fun j hj ↦ ?_, fun j hj ↦ ?_, fun j hj ↦ ?_⟩
    · rcases (Nat.lt_succ_iff.1 hj).lt_or_eq with hlt | rfl
      · rw [hne j hlt.ne]
        exact ih.step_eq j hlt
      · exact hself
    · rcases (Nat.lt_succ_iff.1 hj).lt_or_eq with hlt | rfl
      · rw [hne j hlt.ne]
        exact (Function.update_of_ne hlt.ne _ _).trans (ih.mcpHi_eq j hlt)
      · rw [hself]
        exact Function.update_self _ _ _
    · rw [hne j (by omega)]
      exact ih.x_eq j (by omega)

/-- After the first `n` joint rows. -/
structure JointsDone (P : MCP ℝ) (n : ℕ) (s s' : Forces ℝ) : Prop where
  step_eq : ∀ i < n, s'.x (P.globalNumContactNormalVectors + i) =
    solveRow P (jointLoop P i s).x (P.globalNumContactNormalVectors + i)
  mcpHi_eq : s'.mcpHi = s.mcpHi
  x_eq : ∀ j, j < P.globalNumContactNormalVectors ∨ P.globalNumContactNormalVectors + n ≤ j →
    s'.x j = s.x j

theorem jointLoop_succ (s : Forces ℝ) :
    jointLoop P (n + 1) s =
      jointStep P (jointLoop P n s) (P.globalNumContactNormalVectors + n) := by
  rw [jointLoop, List.range_succ, List.map_append, List.foldl_append]
  rfl

theorem jointsDone (s : Forces ℝ) : JointsDone P n s (jointLoop P n s) := by
  induction n with
  | zero => exact ⟨by simp, rfl, fun _ _ ↦ rfl⟩
  | succ n ih =>
    rw [jointLoop_succ]
    set s' := jointLoop P n s with hs'
    have hne : ∀ j, j ≠ P.globalNumContactNormalVectors + n →
        (jointStep P s' (P.globalNumContactNormalVectors + n)).x j = s'.x j :=
      fun j hj ↦ Function.update_of_ne hj _ _
    refine ⟨fun i hi ↦ ?_, ih.mcpHi_eq, fun j hj ↦ ?_⟩
    · rcases (Nat.lt_succ_iff.1 hi).lt_or_eq with hlt | rfl
      · rw [hne _ (by omega)]
        exact ih.step_eq i hlt
      · exact Function.update_self _ _ _
    · rw [hne j (by omega)]
      exact ih.x_eq j (by omega)

/-- After the first `n` friction pairs. -/
structure FrictionDone (P : MCP ℝ) (n : ℕ) (s s' : Forces ℝ) : Prop where
  step_eq : ∀ c < n, (s'.x (P.frictionX c), s'.x (P.frictionY c)) =
    projectToCone (s.mcpHi c) (solveRow P (frictionLoop P c s).x (P.frictionX c))
      (solveRow P (frictionLoop P c s).x (P.frictionY c))
  mcpHi_eq : s'.mcpHi = s.mcpHi
  x_eq : ∀ j, j < P.globalNumConstraintVectors ∨ P.frictionX n ≤ j → s'.x j = s.x j

theorem frictionLoop_succ (s : Forces ℝ) :
    frictionLoop P (n + 1) s = frictionStep P (frictionLoop P n s) n := by
  rw [frictionLoop, List.range_succ, List.foldl_append]
  rfl

theorem frictionDone (s : Forces ℝ) : FrictionDone P n s (frictionLoop P n s) := by
  induction n with
  | zero => exact ⟨by simp, rfl, fun _ _ ↦ rfl⟩
  | succ n ih =>
    rw [frictionLoop_succ]
    set s' := frictionLoop P n s with hs'
    have hx : (frictionStep P s' n).x (P.frictionX n) =
        (projectToCone (s'.mcpHi n) (solveRow P s'.x (P.frictionX n))
          (solveRow P s'.x (P.frictionY n))).1 :=
      (Function.update_of_ne frictionX_ne _ _).trans (Function.update_self _ _ _)
    have hne : ∀ j, j ≠ P.frictionX n → j ≠ P.frictionY n → (frictionStep P s' n).x j = s'.x j :=
      fun j hjx hjy ↦ (Function.update_of_ne hjy _ _).trans (Function.update_of_ne hjx _ _)
    refine ⟨fun c hc ↦ ?_, ih.mcpHi_eq, fun j hj ↦ ?_⟩
    · rcases (Nat.lt_succ_iff.1 hc).lt_or_eq with hlt | rfl
      · rw [hne _ (by simp only [MCP.frictionX]; omega) frictionX_ne,
          hne _ frictionX_ne.symm (by simp only [MCP.frictionY]; omega)]
        exact ih.step_eq c hlt
      · rw [hx, ← ih.mcpHi_eq]
        exact Prod.ext rfl (Function.update_self _ _ _)
    · simp only [MCP.frictionX, MCP.frictionY] at hj hne ih ⊢
      rw [hne j (by omega) (by omega)]
      exact ih.x_eq j (by simp only [MCP.frictionX]; omega)

end Loops

/-! ### What a sweep does -/

section Sweep

variable {P : MCP ℝ} {s : Forces ℝ}

/-- Every contact owns two friction rows, in the order of the contacts. -/
structure MCP.IsBlocked (P : MCP ℝ) : Prop where
  contacts_le : P.globalNumContactNormalVectors ≤ P.globalNumConstraintVectors
  friction_eq : P.globalNumFrictionVectors = 2 * P.globalNumContactNormalVectors

/-- The bounds on the forces. -/
structure Bounded (P : MCP ℝ) (x : ℕ → ℝ) : Prop where
  nonneg : ∀ c < P.globalNumContactNormalVectors, 0 ≤ x c
  cone : ∀ c < P.globalNumContactNormalVectors,
    x (P.frictionX c) ^ 2 + x (P.frictionY c) ^ 2 ≤ (P.contactIndexToMu c * x c) ^ 2
  marked : ∀ j < P.size, P.M j j = doubleMax → x j = 0

/-- The conditions on `M x + b` in the rows that are not switched off. -/
structure Balanced (P : MCP ℝ) (x : ℕ → ℝ) : Prop where
  contact : ∀ c < P.globalNumContactNormalVectors, P.M c c ≠ doubleMax →
    0 ≤ residual P x c ∧ x c * residual P x c = 0
  joint : ∀ j, P.globalNumContactNormalVectors ≤ j → j < P.globalNumConstraintVectors →
    P.M j j ≠ doubleMax → residual P x j = 0
  friction : ∀ c < P.globalNumContactNormalVectors,
    x (P.frictionX c) ^ 2 + x (P.frictionY c) ^ 2 < (P.contactIndexToMu c * x c) ^ 2 →
    (P.M (P.frictionX c) (P.frictionX c) ≠ doubleMax → residual P x (P.frictionX c) = 0) ∧
    (P.M (P.frictionY c) (P.frictionY c) ≠ doubleMax → residual P x (P.frictionY c) = 0)

/-- The state of a sweep after its loop over the contacts. -/
noncomputable def afterContacts (P : MCP ℝ) (s : Forces ℝ) : Forces ℝ :=
  contactLoop P P.globalNumContactNormalVectors s

/-- The state of a sweep after its loop over the joints. -/
noncomputable def afterJoints (P : MCP ℝ) (s : Forces ℝ) : Forces ℝ :=
  jointLoop P (P.globalNumConstraintVectors - P.globalNumContactNormalVectors) (afterContacts P s)

/-- What a sweep leaves in every row: the step of the row, from the state the sweep had reached. -/
structure Swept (P : MCP ℝ) (s : Forces ℝ) (x : ℕ → ℝ) : Prop where
  contact : ∀ c < P.globalNumContactNormalVectors, x c =
    if solveRow P (contactLoop P c s).x c < 0 then 0 else solveRow P (contactLoop P c s).x c
  joint : ∀ i < P.globalNumConstraintVectors - P.globalNumContactNormalVectors,
    x (P.globalNumContactNormalVectors + i) =
      solveRow P (jointLoop P i (afterContacts P s)).x (P.globalNumContactNormalVectors + i)
  friction : ∀ c < P.globalNumContactNormalVectors, (x (P.frictionX c), x (P.frictionY c)) =
    projectToCone (P.contactIndexToMu c * x c)
      (solveRow P (frictionLoop P c (afterJoints P s)).x (P.frictionX c))
      (solveRow P (frictionLoop P c (afterJoints P s)).x (P.frictionY c))

theorem sweepMain_eq (hP : P.IsBlocked) (s : Forces ℝ) :
    sweepMain P s = frictionLoop P P.globalNumContactNormalVectors (afterJoints P s) := by
  have hpairs : (P.globalNumFrictionVectors + 1) / 2 = P.globalNumContactNormalVectors := by
    rw [hP.friction_eq]
    omega
  rw [sweepMain, hpairs]
  rfl

theorem swept_sweepMain (hP : P.IsBlocked) (s : Forces ℝ) : Swept P s (sweepMain P s).x := by
  have hle := hP.contacts_le
  have h₁ : ContactsDone P _ s (afterContacts P s) := contactsDone _ s
  have h₂ : JointsDone P _ (afterContacts P s) (afterJoints P s) := jointsDone _ _
  have h₃ := frictionDone (P := P) P.globalNumContactNormalVectors (afterJoints P s)
  rw [sweepMain_eq hP]
  have hcontact : ∀ c < P.globalNumContactNormalVectors,
      (frictionLoop P P.globalNumContactNormalVectors (afterJoints P s)).x c =
        (afterContacts P s).x c :=
    fun c hc ↦ (h₃.x_eq c (.inl (hc.trans_le hle))).trans (h₂.x_eq c (.inl hc))
  refine ⟨fun c hc ↦ (hcontact c hc).trans (h₁.step_eq c hc), fun i hi ↦ ?_, fun c hc ↦ ?_⟩
  · exact (h₃.x_eq _ (.inl (by omega))).trans (h₂.step_eq i hi)
  · rw [h₃.step_eq c hc, hcontact c hc, h₂.mcpHi_eq, h₁.mcpHi_eq c hc]

/-- Forces that a sweep leaves are within their bounds. -/
theorem bounded_sweepMain (hP : P.IsBlocked) (s : Forces ℝ) : Bounded P (sweepMain P s).x := by
  have hswept := swept_sweepMain hP s
  set x := (sweepMain P s).x
  refine ⟨fun c hc ↦ ?_, fun c hc ↦ ?_, fun j hj hmarker ↦ ?_⟩
  · rw [hswept.contact c hc]
    split_ifs with hneg
    · exact le_rfl
    · exact not_lt.1 hneg
  · have hcone := projectToCone_sq_le (P.contactIndexToMu c * x c)
      (solveRow P (frictionLoop P c (afterJoints P s)).x (P.frictionX c))
      (solveRow P (frictionLoop P c (afterJoints P s)).x (P.frictionY c))
    rwa [← hswept.friction c hc] at hcone
  · rcases Nat.lt_or_ge j P.globalNumContactNormalVectors with hc | hge
    · rw [hswept.contact j hc, solveRow_of_marker hmarker, ite_self]
    rcases Nat.lt_or_ge j P.globalNumConstraintVectors with hjoint | hge'
    · obtain ⟨i, rfl⟩ := Nat.exists_eq_add_of_le hge
      rw [hswept.joint i (by omega), solveRow_of_marker hmarker]
    obtain ⟨i, rfl⟩ := Nat.exists_eq_add_of_le hge'
    have hi : i < 2 * P.globalNumContactNormalVectors := by
      rw [MCP.size, hP.friction_eq] at hj
      omega
    rcases Nat.even_or_odd' i with ⟨c, rfl | rfl⟩
    · have hpair := congrArg Prod.fst (hswept.friction c (by omega))
      rw [solveRow_of_marker (j := P.frictionX c) hmarker, projectToCone_zero_left] at hpair
      exact hpair
    · have hpair := congrArg Prod.snd (hswept.friction c (by omega))
      rw [solveRow_of_marker (j := P.frictionY c) hmarker, projectToCone_zero_right] at hpair
      exact hpair

/-- When a sweep changes nothing, none of its steps does. -/
theorem contactLoop_x_of_fixed (hP : P.IsBlocked) (h : (sweepMain P s).x = s.x) {n : ℕ}
    (hn : n ≤ P.globalNumContactNormalVectors) : (contactLoop P n s).x = s.x := by
  funext j
  rcases Nat.lt_or_ge j n with hlt | hge
  · rw [(contactsDone n s).step_eq j hlt, ← (swept_sweepMain hP s).contact j (by omega), h]
  · exact (contactsDone n s).x_eq j hge

theorem jointLoop_x_of_fixed (hP : P.IsBlocked) (h : (sweepMain P s).x = s.x) {n : ℕ}
    (hn : n ≤ P.globalNumConstraintVectors - P.globalNumContactNormalVectors) :
    (jointLoop P n (afterContacts P s)).x = s.x := by
  have hstart : (afterContacts P s).x = s.x := contactLoop_x_of_fixed hP h le_rfl
  funext j
  by_cases hj : j < P.globalNumContactNormalVectors ∨ P.globalNumContactNormalVectors + n ≤ j
  · rw [(jointsDone n _).x_eq j hj, hstart]
  · obtain ⟨i, rfl⟩ := Nat.exists_eq_add_of_le (not_lt.1 fun hlt ↦ hj (.inl hlt))
    have hi : i < n := by omega
    rw [(jointsDone n _).step_eq i hi, ← (swept_sweepMain hP s).joint i (by omega), h]

theorem frictionLoop_x_of_fixed (hP : P.IsBlocked) (h : (sweepMain P s).x = s.x) {n : ℕ}
    (hn : n ≤ P.globalNumContactNormalVectors) :
    (frictionLoop P n (afterJoints P s)).x = s.x := by
  have hstart : (afterJoints P s).x = s.x := jointLoop_x_of_fixed hP h le_rfl
  have hbound : ∀ c < P.globalNumContactNormalVectors,
      (afterJoints P s).mcpHi c = P.contactIndexToMu c * (sweepMain P s).x c := by
    intro c hc
    rw [h, ← contactLoop_x_of_fixed hP h le_rfl, ← (contactsDone _ s).mcpHi_eq c hc]
    exact congrFun (jointsDone _ _).mcpHi_eq c
  have hpair : ∀ c < n, ((frictionLoop P n (afterJoints P s)).x (P.frictionX c),
      (frictionLoop P n (afterJoints P s)).x (P.frictionY c)) =
        (s.x (P.frictionX c), s.x (P.frictionY c)) := by
    intro c hc
    rw [(frictionDone n _).step_eq c hc, hbound c (by omega),
      ← (swept_sweepMain hP s).friction c (by omega), h]
  funext j
  by_cases hj : j < P.globalNumConstraintVectors ∨ P.frictionX n ≤ j
  · rw [(frictionDone n _).x_eq j hj, hstart]
  · obtain ⟨i, rfl⟩ := Nat.exists_eq_add_of_le (not_lt.1 fun hlt ↦ hj (.inl hlt))
    have hi : i < 2 * n := by
      simp only [MCP.frictionX] at hj
      omega
    rcases Nat.even_or_odd' i with ⟨c, rfl | rfl⟩
    · exact congrArg Prod.fst (hpair c (by omega))
    · exact congrArg Prod.snd (hpair c (by omega))

/-- Forces that a sweep does not change satisfy the conditions on `M x + b`. -/
theorem balanced_of_fixed (hP : P.IsBlocked) (hdiag : ∀ j < P.size, 0 < P.M j j)
    (h : (sweepMain P s).x = s.x) : Balanced P s.x := by
  have hswept := swept_sweepMain hP s
  have hle := hP.contacts_le
  have hsize : P.size = P.globalNumConstraintVectors + 2 * P.globalNumContactNormalVectors := by
    rw [MCP.size, hP.friction_eq]
  rw [h] at hswept
  refine ⟨fun c hc hmarker ↦ ?_, fun j hge hlt hmarker ↦ ?_, fun c hc hinside ↦ ?_⟩
  · have hstep := hswept.contact c hc
    rw [contactLoop_x_of_fixed hP h hc.le] at hstep
    have hpos : 0 < P.M c c := hdiag c (by omega)
    split_ifs at hstep with hneg
    · rw [solveRow_eq hmarker hpos, hstep, zero_sub, neg_lt_zero,
        div_pos_iff_of_pos_right hpos] at hneg
      exact ⟨hneg.le, by rw [hstep, zero_mul]⟩
    · have hzero := residual_eq_zero hmarker hpos hstep.symm
      exact ⟨hzero.ge, by rw [hzero, mul_zero]⟩
  · obtain ⟨i, rfl⟩ := Nat.exists_eq_add_of_le hge
    have hstep := hswept.joint i (by omega)
    rw [jointLoop_x_of_fixed hP h (by omega)] at hstep
    exact residual_eq_zero hmarker (hdiag _ (by omega)) hstep.symm
  · have hstep := hswept.friction c hc
    rw [frictionLoop_x_of_fixed hP h hc.le] at hstep
    have hfree : (s.x (P.frictionX c), s.x (P.frictionY c)) =
        (solveRow P s.x (P.frictionX c), solveRow P s.x (P.frictionY c)) := by
      rw [hstep]
      refine projectToCone_eq ?_
      rwa [← hstep]
    refine ⟨fun hmarker ↦ residual_eq_zero hmarker (hdiag _ ?_) (congrArg Prod.fst hfree).symm,
      fun hmarker ↦ residual_eq_zero hmarker (hdiag _ ?_) (congrArg Prod.snd hfree).symm⟩
    · rw [MCP.frictionX]
      omega
    · rw [MCP.frictionY]
      omega

end Sweep

/-! ### The solver -/

section Result

variable {P : MCP ℝ}

/-- A small diagonal entry is marked, in its turn. -/
theorem clearSingular_diag {n : ℕ} {M : ℕ → ℕ → ℝ} {j : ℕ} :
    (j < n → M j j < 1 / 10 ^ 4 →
      clearSingularPointConstraintsOfClosedLoopConnections n M j j = doubleMax) ∧
    (n ≤ j → clearSingularPointConstraintsOfClosedLoopConnections n M j j = M j j) := by
  induction n with
  | zero => exact ⟨fun h ↦ absurd h (Nat.not_lt_zero j), fun _ ↦ rfl⟩
  | succ n ih =>
    rw [clearSingularPointConstraintsOfClosedLoopConnections] at ih ⊢
    rw [List.range_succ, List.foldl_append]
    set M' := (List.range n).foldl _ M
    show (_ → _ → (if M' n n < 1 / 10 ^ 4 then
      fun j k ↦ if k = n then (if j = n then doubleMax else 0) else M' j k else M') j j = _) ∧
      (_ → (if M' n n < 1 / 10 ^ 4 then
      fun j k ↦ if k = n then (if j = n then doubleMax else 0) else M' j k else M') j j = _)
    by_cases hj : j = n
    · subst hj
      refine ⟨fun _ hsmall ↦ ?_, fun h ↦ absurd h (by omega)⟩
      rw [if_pos (by rwa [ih.2 le_rfl])]
      simp
    · have hne : (if M' n n < 1 / 10 ^ 4 then
          fun j k ↦ if k = n then (if j = n then doubleMax else 0) else M' j k else M') j j =
          M' j j := by
        split_ifs
        · exact if_neg hj
        · rfl
      rw [hne]
      exact ⟨fun h hsmall ↦ ih.1 (by omega) hsmall, fun h ↦ ih.2 (by omega)⟩

theorem exists_eq_sweepMain (iterations : Iterations ℝ) (s : Forces ℝ) :
    ∃ s', solveMCPByProjectedGaussSeidel P iterations s = sweepMain P s' := by
  have hblock : ∀ (e : ℝ) (n : ℕ) (s : Forces ℝ), ∃ s', blockLoop P e (n + 1) s =
      sweepMain P s' := by
    intro e n
    induction n with
    | zero =>
      intro s
      rw [blockLoop]
      exact ⟨_, ite_self _⟩
    | succ n ih =>
      intro s
      rw [blockLoop]
      split_ifs
      · exact ⟨_, rfl⟩
      · exact ih _
  obtain ⟨n, hn⟩ : ∃ n, (if iterations.maxNumGaussSeidelIteration / 10 = 0 then 1
      else iterations.maxNumGaussSeidelIteration / 10) = n + 1 :=
    Nat.exists_eq_add_one_of_ne_zero (by split_ifs with h <;> omega)
  rw [solveMCPByProjectedGaussSeidel]
  simp only [hn]
  exact hblock _ _ _

/-- **The forces keep their bounds, and forces that a sweep does not change solve the problem** in
the rows that are not switched off; a singular row gets no force. -/
theorem forces_solveMCPByProjectedGaussSeidel (P : MCP ℝ) (hP : P.IsBlocked)
    (hdiag : ∀ j < P.size, 0 < P.M j j) :
    (∀ iterations s, Bounded P (solveMCPByProjectedGaussSeidel P iterations s).x) ∧
    (∀ iterations s, ∀ j < P.size, P.M j j < 1 / 10 ^ 4 →
      (solveMCPByProjectedGaussSeidel P.clearSingular iterations s).x j = 0) ∧
    ∀ s, (solveMCPByProjectedGaussSeidelMain P 1 s).x = s.x → Balanced P s.x := by
  refine ⟨fun iterations s ↦ ?_, fun iterations s j hj hsmall ↦ ?_, fun s h ↦
    balanced_of_fixed hP hdiag h⟩
  · obtain ⟨s', hs'⟩ := exists_eq_sweepMain (P := P) iterations s
    rw [hs']
    exact bounded_sweepMain hP s'
  · obtain ⟨s', hs'⟩ := exists_eq_sweepMain (P := P.clearSingular) iterations s
    rw [hs']
    have hmarker : P.clearSingular.M j j = doubleMax :=
      clearSingular_diag.1 hj hsmall
    exact (bounded_sweepMain (P := P.clearSingular) ⟨hP.contacts_le, hP.friction_eq⟩ s').marked j hj
      hmarker

end Result

/-- One contact without a load. -/
def oneContact : MCP ℝ where
  globalNumContactNormalVectors := 1
  globalNumConstraintVectors := 1
  globalNumFrictionVectors := 2
  M := fun j k ↦ if j = k then 1 else 0
  b := fun _ ↦ 0
  contactIndexToMu := fun _ ↦ 1

theorem forces_solveMCPByProjectedGaussSeidel_oneContact :
    Bounded oneContact (solveMCPByProjectedGaussSeidel oneContact ⟨50, 5, 1⟩
      ⟨fun _ ↦ 1, fun _ ↦ 0⟩).x :=
  (forces_solveMCPByProjectedGaussSeidel oneContact ⟨le_rfl, rfl⟩
    fun j _ ↦ by simp [oneContact]).1 _ _

/-- One joint row that is switched off. -/
def oneMarkedJoint : MCP ℝ where
  globalNumContactNormalVectors := 0
  globalNumConstraintVectors := 1
  globalNumFrictionVectors := 0
  M := fun _ _ ↦ doubleMax
  b := fun _ ↦ 1
  contactIndexToMu := fun _ ↦ 0

/-- In a row that is switched off `M x + b` is whatever the other forces make of it. -/
theorem not_balanced_oneMarkedJoint : ¬ ∀ P : MCP ℝ, P.IsBlocked → (∀ j < P.size, 0 < P.M j j) →
    (∀ c < P.globalNumContactNormalVectors, 0 ≤ P.contactIndexToMu c) →
    ∀ s, (solveMCPByProjectedGaussSeidelMain P 1 s).x = s.x →
      (∀ c < P.globalNumContactNormalVectors,
        0 ≤ residual P s.x c ∧ s.x c * residual P s.x c = 0) ∧
      (∀ j, P.globalNumContactNormalVectors ≤ j → j < P.globalNumConstraintVectors →
        residual P s.x j = 0) ∧
      ∀ c < P.globalNumContactNormalVectors,
        s.x (P.frictionX c) ^ 2 + s.x (P.frictionY c) ^ 2 < (P.contactIndexToMu c * s.x c) ^ 2 →
        residual P s.x (P.frictionX c) = 0 ∧ residual P s.x (P.frictionY c) = 0 := by
  intro h
  have hfixed : (solveMCPByProjectedGaussSeidelMain oneMarkedJoint 1 ⟨fun _ ↦ 0, fun _ ↦ 0⟩).x =
      fun _ ↦ 0 := by
    have hrow : solveRow oneMarkedJoint (fun _ ↦ 0) 0 = 0 := solveRow_of_marker rfl
    show Function.update (fun _ ↦ (0 : ℝ)) 0 (solveRow oneMarkedJoint (fun _ ↦ 0) 0) = fun _ ↦ 0
    rw [hrow]
    exact Function.update_eq_self 0 _
  have hpos : (0 : ℝ) < doubleMax := mul_pos (by norm_num) (by positivity)
  have hrow := (h oneMarkedJoint ⟨Nat.zero_le _, rfl⟩ (fun _ _ ↦ hpos) (by simp [oneMarkedJoint])
    ⟨fun _ ↦ 0, fun _ ↦ 0⟩ hfixed).2.1 0 (Nat.zero_le _) Nat.one_pos
  simp [residual, oneMarkedJoint] at hrow

end OpenHRP.ConstraintForce
