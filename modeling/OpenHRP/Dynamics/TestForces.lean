import OpenHRP.Dynamics.UnknownAccels

/-!
# Test forces in mixed-mode dynamics

Between two runs of `calcMassMatrix` the constraint solver asks `ForwardDynamicsMM` for the
accelerations without contacts, and then for those under test forces. `d1`, what the external forces
put on the torque-mode joints, is computed once for the first request and again for each test force,
and the flag that says it is there is cleared by `calcMassMatrix` alone. The step that follows
solves with the `d1` of the last test force.

So the test forces leave no trace exactly when the external forces that `d1` comes from put the same
torques on the torque-mode joints as those of the step (`leavesNoTrace_iff`).
-/

open Matrix

namespace OpenHRP

namespace ForwardDynamicsMM

open ForwardDynamicsABM (accel axis crossVelocity biasForce externalForce)

variable {ι K : Type*} [DecidableEq ι] [Field K]

/-! ### The program -/

/-- The link with other external forces on it. -/
def setExternalForce (f : Spatial K) (link : Link K) : Link K :=
  { link with fext := f.1, tauext := f.2 }

section Program

variable {modes : Modes ι} (t : LinkTree ι) (g : Vector3 K)
  (solve : Matrix (Unknown modes) (Unknown modes) K → (Unknown modes → K) → Unknown modes → K)

/-- `solveUnknownAccels` of a test force at a link. -/
def solveTestForce (link : ι) (fext tauext rootfext roottauext : Vector3 K)
    (st : State ι K modes) : State ι K modes :=
  let org := st.links
  let links := Function.update org link (setExternalForce (fext, tauext) (org link))
  let out := calcd1 t links
  let links := restoreTorques t links out.1
  -- the flag stays, and so does `d1`
  let st := { st with
    d1 := Sum.elim 0 fun i ↦ (out.1 (modes.torqueModeJoints.get i)).u
    links := Function.update links link (setExternalForce (externalForce (org link)) (links link)) }
  solveUnknownAccelsFor t solve rootfext roottauext st

/-- What the solver is called for between two runs of `calcMassMatrix`. -/
inductive Call (ι K : Type*) where
  | sumExternalForces
  | solveUnknownAccels
  | testForce (link : ι) (fext tauext rootfext roottauext : Vector3 K)

/-- The solver after a call. -/
def call (st : State ι K modes) : Call ι K → State ι K modes
  | .sumExternalForces => sumExternalForces t st
  | .solveUnknownAccels => solveUnknownAccels t solve st
  | .testForce link fext tauext rootfext roottauext =>
    solveTestForce t solve link fext tauext rootfext roottauext st

/-- Other external forces on all links. -/
def changeForces (F : ι → Spatial K) (st : State ι K modes) : State ι K modes :=
  { st with links := fun i ↦ setExternalForce (F i) (st.links i) }

/-- The solver is initialized anew. -/
def restart (st : State ι K modes) : State ι K modes :=
  { calcMassMatrix t g st with ddqGivenCopied := false }

/-- The start of a step, up to the accelerations. -/
def solveStep (st : State ι K modes) : State ι K modes :=
  solveUnknownAccels t solve (sumExternalForces t st)

end Program

/-! ### What is to be computed -/

/-- The accelerations of the root and of the joints are the same. -/
structure SameAccels (t : LinkTree ι) (s s' : Store ι K) : Prop where
  root : accel (s t.root) = accel (s' t.root)
  joint : ∀ i ∈ t.child.links, (s i).ddq = (s' i).ddq

/-- After calls from the state `st` and a change of the external forces to `F`, a step starts with
the accelerations that a solver initialized anew computes. -/
def LeavesNoTrace {modes : Modes ι} (t : LinkTree ι) (g : Vector3 K)
    (solve : Matrix (Unknown modes) (Unknown modes) K → (Unknown modes → K) → Unknown modes → K)
    (st : State ι K modes) (calls : List (Call ι K)) (F : ι → Spatial K) : Prop :=
  let now := changeForces F (calls.foldl (call t solve) st)
  SameAccels t (solveStep t solve now).links (solveStep t solve (restart t g now)).links

/-- The torque that external forces `F` put on a joint. -/
def jointTorque (t : LinkTree ι) (s : Store ι K) (F : ι → Spatial K) (i : ι) : K :=
  spatialPower (axis (s i)) (t.subtreeSum F i)

/-- The external forces that `d1` comes from, once there has been a request for the accelerations
without test forces: those of that request, or with the last test force since then. -/
def biasForces (s : Store ι K) : Option (ι → Spatial K) → Call ι K → Option (ι → Spatial K)
  | forces, .sumExternalForces => forces
  | none, .solveUnknownAccels => some fun i ↦ externalForce (s i)
  | some forces, .solveUnknownAccels => some forces
  | none, .testForce .. => none
  | some _, .testForce link fext tauext _ _ =>
    some (Function.update (fun i ↦ externalForce (s i)) link (fext, tauext))

/-! ### What the calls keep -/

/-- The link but for its accelerations, its torque and the external forces on it. -/
def unloaded (link : Link K) : Link K :=
  setExternalForce 0 (atRest link)

section Kept

variable {modes : Modes ι} {t : LinkTree ι}

theorem restoreTorques_calcd1 (t : LinkTree ι) (s : Store ι K) :
    (∀ i ∈ t.child.links, restoreTorques t s (calcd1 t s).1 i = s i) ∧
      withoutTorque (restoreTorques t s (calcd1 t s).1 t.root) = withoutTorque (s t.root) := by
  refine ⟨fun i hi ↦ ?_, ?_⟩
  · rw [restoreTorques, t.jointLoop_of_mem _ _ hi]
    exact eq_of_withoutTorque_eq ((calcd1_links s).1 i hi) rfl
  · rw [restoreTorques, t.jointLoop_of_notMem _ _ t.root_notMem_child]
    exact (calcd1_links s).2

/-- The matrices depend neither on the accelerations and torques of the links nor on the external
forces. -/
theorem calcMassMatrix_congr (hmodes : modes.Sorted t) (g : Vector3 K) {st st' : State ι K modes}
    (hw : st.root_w_x_v = st'.root_w_x_v)
    (hrest : ∀ i ∈ t.links, unloaded (st.links i) = unloaded (st'.links i)) :
    (calcMassMatrix t g st).M11 = (calcMassMatrix t g st').M11 ∧
      (calcMassMatrix t g st).M12 = (calcMassMatrix t g st').M12 ∧
      (calcMassMatrix t g st).b1 = (calcMassMatrix t g st').b1 := by
  obtain ⟨hM11, hM12, hb1, -⟩ := calcMassMatrix_spec hmodes g st
  obtain ⟨hM11', hM12', hb1', -⟩ := calcMassMatrix_spec hmodes g st'
  -- the unloaded links, of which the matrices are the same
  set s : Store ι K := fun i ↦ unloaded (st.links i) with hs
  set s' : Store ι K := fun i ↦ unloaded (st'.links i) with hs'
  have hunloaded : ∀ i ∈ t.links, atRest (s i) = atRest (s' i) := fun i hi ↦
    congrArg atRest (hrest i hi)
  have hentry : entry t st.links = entry t st'.links := (entry_congr hunloaded :)
  have hmotor : ∀ d : Unknown modes, motorInertia st.links d = motorInertia st'.links d :=
    fun d ↦ by
    rcases d with d | i
    · rfl
    · exact (congrArg Link.Jm2
        (hrest _ (List.mem_cons_of_mem _ (hmodes.torque_mem _ (List.getElem_mem i.2)))) :)
  have hforce : ∀ d : Dof ι, IsDof t d →
      newtonEulerForce t st.links (g - st.root_w_x_v, 0) 0 d =
        newtonEulerForce t st'.links (g - st'.root_w_x_v, 0) 0 d := fun d hd ↦ by
    rw [hw]
    have hcongr : newtonEulerForce t s (g - st'.root_w_x_v, 0) 0 d =
        newtonEulerForce t s' (g - st'.root_w_x_v, 0) 0 d :=
      newtonEulerForce_congr hunloaded (fun _ _ ↦ rfl) hd
    exact hcongr
  refine ⟨?_, ?_, ?_⟩
  · ext d e
    rw [hM11, hM11', hentry, hmotor]
  · ext d e
    rw [hM12, hM12', hentry]
  · funext d
    rw [hb1, hb1', hforce _ (d.isDof hmodes.torque_mem)]

variable {s s' : Store ι K}

theorem jointTorque_congr {F F' : ι → Spatial K} {i : ι} (hi : i ∈ t.child.links)
    (h : ∀ k ∈ t.links, unloaded (s k) = unloaded (s' k)) (hF : ∀ k ∈ t.links, F k = F' k) :
    jointTorque t s F i = jointTorque t s' F' i := by
  have hmem : i ∈ t.links := List.mem_cons_of_mem _ hi
  have haxis : axis (s i) = axis (s' i) := (congrArg axis (h i hmem) :)
  rw [jointTorque, jointTorque, haxis, t.subtreeSum_congr fun k hk ↦
    hF k ((t.below_sublist hmem).subset hk)]

variable {F : ι → Spatial K}

/-- `calcd1` leaves in every joint the torque of the negated external forces. -/
theorem calcd1_u_eq {i : ι} (hi : i ∈ t.child.links)
    (h : ∀ k ∈ t.links, unloaded (s k) = unloaded (s' k))
    (hF : ∀ k ∈ t.links, externalForce (s k) = F k) :
    ((calcd1 t s).1 i).u = -jointTorque t s' F i :=
  (calcd1_u s hi).trans (congrArg Neg.neg (jointTorque_congr hi h hF))

omit [DecidableEq ι] in
theorem copiedAccel_congr (hmodes : modes.Sorted t)
    (h : ∀ i ∈ t.links, unloaded (s i) = unloaded (s' i))
    (hddq : ∀ i ∈ modes.highGainModeJoints, (s i).ddq = (s' i).ddq)
    (hdw : modes.unknown_rootDof = false → (s t.root).dw = (s' t.root).dw) :
    (copiedAccel t s : Given modes → K) = copiedAccel t s' := by
  have hroot (hgiven : modes.given_rootDof = true) :
      spatialAccel (s t.root) ((s t.root).dv, (s t.root).dw) =
        spatialAccel (s' t.root) ((s' t.root).dv, (s' t.root).dw) := by
    rw [hdw (by
      by_contra hunknown
      exact absurd (hmodes.root (by simpa using hunknown)) (by rw [hgiven]; decide))]
    exact (congrArg (fun link : Link K ↦ spatialAccel link (link.dv, (s' t.root).dw))
      (h _ t.root_mem) :)
  funext e
  rcases e with ⟨k | k, hk⟩ | i
  · exact congrFun (congrArg Prod.fst (hroot hk)) k
  · exact congrFun (congrArg Prod.snd (hroot hk)) k
  · exact hddq _ (List.getElem_mem i.2)

variable
  (solve : Matrix (Unknown modes) (Unknown modes) K → (Unknown modes → K) → Unknown modes → K)

/-- What solving changes in the links. -/
theorem solveUnknownAccelsFor_links (hmodes : modes.Sorted t)
    (fext tauext : Vector3 K) (st : State ι K modes) :
    let c := setC1 fext tauext st.links - st.d1 - st.b1
    let st' := solveUnknownAccelsFor t solve fext tauext st
    (∀ i, st'.links (modes.torqueModeJoints.get i) =
        setDdq (c (.inr i)) (st.links (modes.torqueModeJoints.get i))) ∧
      (∀ i ∈ t.child.links, i ∉ modes.torqueModeJoints → st'.links i = st.links i) ∧
      st'.links t.root = setRootAccel st.root_w_x_v (solve st.M11 c) (st.links t.root) := by
  intro c st'
  obtain ⟨hin, hout⟩ := setTorqueModeAccel_spec hmodes c (Function.update st.links t.root
    (setRootAccel st.root_w_x_v (solve st.M11 c) (st.links t.root)))
  refine ⟨fun i ↦ (hin i).trans ?_, fun i hi htorque ↦ (hout i htorque).trans ?_,
    (hout _ fun hroot ↦ t.root_notMem_child (hmodes.torque_mem _ hroot)).trans
      (Function.update_self ..)⟩
  · exact congrArg (setDdq _) (Function.update_of_ne
      (t.ne_root_of_mem_child (hmodes.torque_mem _ (List.getElem_mem i.2))) _ _)
  · rw [Function.update_of_ne (t.ne_root_of_mem_child hi)]

/-- What no call changes, in a solver that was in the state `st₂`. The external forces are `F`. -/
structure Between (t : LinkTree ι) (st₂ st : State ι K modes) (F : ι → Spatial K) : Prop where
  root_w_x_v : st.root_w_x_v = st₂.root_w_x_v
  M11 : st.M11 = st₂.M11
  M12 : st.M12 = st₂.M12
  rest : ∀ i ∈ t.links, unloaded (st.links i) = unloaded (st₂.links i)
  force : ∀ i ∈ t.links, externalForce (st.links i) = F i
  u : ∀ i ∈ t.child.links, (st.links i).u = (st₂.links i).u
  ddq : ∀ i ∈ modes.highGainModeJoints, (st.links i).ddq = (st₂.links i).ddq
  dw : modes.unknown_rootDof = false → (st.links t.root).dw = (st₂.links t.root).dw

/-- A solver that has not been initialized. -/
structure Uninitialized (st₂ st : State ι K modes) : Prop where
  accelSolverInitialized : st.accelSolverInitialized = false
  ddqGivenCopied : st.ddqGivenCopied = false
  b1 : st.b1 = st₂.b1

/-- A solver that has been initialized, with the `d1` of the external forces `F`. -/
structure Biased (t : LinkTree ι) (st₂ st : State ι K modes) (F : ι → Spatial K) : Prop where
  accelSolverInitialized : st.accelSolverInitialized = true
  b1 : st.b1 = st₂.b1 + st₂.M12 *ᵥ copiedAccel t st₂.links
  d1 : ∀ d, st.d1 d = match d with
    | .inl _ => 0
    | .inr i => -jointTorque t st₂.links F (modes.torqueModeJoints.get i)
  dvo : modes.given_rootDof = true → (st.links t.root).dvo =
    (spatialAccel (st₂.links t.root) ((st₂.links t.root).dv, (st₂.links t.root).dw)).1

/-- Links with other accelerations of the root and of the torque-mode joints, and another torque at
the root. -/
structure OtherAccels (modes : Modes ι) (t : LinkTree ι) (s s' : Store ι K) : Prop where
  joint : ∀ i ∈ t.child.links, setDdq 0 (s' i) = setDdq 0 (s i)
  ddq : ∀ i ∈ t.child.links, i ∉ modes.torqueModeJoints → (s' i).ddq = (s i).ddq
  root : unloaded (s' t.root) = unloaded (s t.root) ∧
    externalForce (s' t.root) = externalForce (s t.root)
  dw : modes.unknown_rootDof = false → (s' t.root).dw = (s t.root).dw

omit [DecidableEq ι] in
theorem Between.of_otherAccels (hmodes : modes.Sorted t) {st₂ st st' : State ι K modes}
    (h : Between t st₂ st F) (hw : st'.root_w_x_v = st.root_w_x_v) (hM11 : st'.M11 = st.M11)
    (hM12 : st'.M12 = st.M12) (hlinks : OtherAccels modes t st.links st'.links) :
    Between t st₂ st' F where
  root_w_x_v := hw.trans h.root_w_x_v
  M11 := hM11.trans h.M11
  M12 := hM12.trans h.M12
  rest i hi := by
    refine Eq.trans ?_ (h.rest i hi)
    rcases List.mem_cons.1 hi with rfl | hi
    · exact hlinks.root.1
    · exact (congrArg unloaded (hlinks.joint i hi) :)
  force i hi := by
    refine Eq.trans ?_ (h.force i hi)
    rcases List.mem_cons.1 hi with rfl | hi
    · exact hlinks.root.2
    · exact (congrArg externalForce (hlinks.joint i hi) :)
  u i hi := (congrArg Link.u (hlinks.joint i hi) :).trans (h.u i hi)
  ddq i hi := (hlinks.ddq i (hmodes.highGain_mem i hi) fun htorque ↦
    hmodes.disjoint i htorque hi).trans (h.ddq i hi)
  dw hunknown := (hlinks.dw hunknown).trans (h.dw hunknown)

theorem otherAccels_solveUnknownAccelsFor (hmodes : modes.Sorted t)
    (fext tauext : Vector3 K) (st : State ι K modes) :
    OtherAccels modes t st.links (solveUnknownAccelsFor t solve fext tauext st).links := by
  obtain ⟨hin, hout, hroot⟩ := solveUnknownAccelsFor_links solve hmodes fext tauext st
  refine ⟨fun i hi ↦ ?_, fun i hi htorque ↦ by rw [hout i hi htorque], ?_, fun hunknown ↦ ?_⟩
  · by_cases htorque : i ∈ modes.torqueModeJoints
    · obtain ⟨k, hk, rfl⟩ := List.getElem_of_mem htorque
      exact (congrArg (setDdq 0) (hin ⟨k, hk⟩) :)
    · rw [hout i hi htorque]
  · rw [hroot, setRootAccel]
    split_ifs
    · exact ⟨rfl, rfl⟩
    · exact ⟨rfl, rfl⟩
  · rw [hroot, setRootAccel, dif_neg (by rw [hunknown]; decide)]

variable {st₂ st : State ι K modes}

/-- Solving keeps what has been initialized. -/
theorem Biased.solveUnknownAccelsFor (hmodes : modes.Sorted t) (h : Biased t st₂ st F)
    (fext tauext : Vector3 K) : Biased t st₂ (solveUnknownAccelsFor t solve fext tauext st) F where
  accelSolverInitialized := h.accelSolverInitialized
  b1 := h.b1
  d1 := h.d1
  dvo hgiven := by
    have hunknown : ¬modes.unknown_rootDof = true := fun hunknown ↦
      absurd (hmodes.root hunknown) (by rw [hgiven]; decide)
    rw [(solveUnknownAccelsFor_links solve hmodes fext tauext st).2.2, setRootAccel,
      dif_neg hunknown]
    exact h.dvo hgiven

/-- Initializing an uninitialized solver: `d1` comes from the external forces of the links. -/
theorem Between.initializeAccelSolver (hmodes : modes.Sorted t) (h : Between t st₂ st F)
    (hst : Uninitialized st₂ st) :
    let st' := initializeAccelSolver t st
    OtherAccels modes t st.links st'.links ∧ Between t st₂ st' F ∧ Biased t st₂ st' F ∧
      (∀ i ∈ t.child.links, (st'.links i).ddq = (st.links i).ddq) ∧
      (modes.given_rootDof = false → accel (st'.links t.root) = accel (st.links t.root)) := by
  intro st'
  set st₁ := copyGiven t st with hst₁
  have hddqGiven : st₁.ddqGiven = copiedAccel t st₂.links := by
    rw [hst₁, ddqGiven_copyGiven hmodes ⟨fun _ _ ↦ rfl, fun _ _ ↦ rfl, fun _ _ ↦ rfl, rfl⟩
      hst.ddqGivenCopied]
    exact copiedAccel_congr hmodes h.rest h.ddq h.dw
  -- copying the given accelerations sets `dvo` of a given root
  have hcopy : st₁ = { st with
      links := if modes.given_rootDof then
        Function.update st.links t.root { st.links t.root with
          dvo := (spatialAccel (st.links t.root) ((st.links t.root).dv, (st.links t.root).dw)).1 }
        else st.links
      ddqGiven := st₁.ddqGiven
      ddqGivenCopied := true } := by
    rw [hst₁, copyGiven, if_neg (by rw [hst.ddqGivenCopied]; decide)]
    rfl
  have hst' : st' = { st₁ with
      b1 := st₁.b1 + st₁.M12 *ᵥ st₁.ddqGiven
      d1 := Sum.elim 0 fun i ↦ ((calcd1 t st₁.links).1 (modes.torqueModeJoints.get i)).u
      links := restoreTorques t st₁.links (calcd1 t st₁.links).1
      accelSolverInitialized := true } :=
    if_neg (by rw [hst.accelSolverInitialized]; decide)
  obtain ⟨hjoint₁, hroot₁⟩ : (∀ i ∈ t.child.links, st₁.links i = st.links i) ∧
      st₁.links t.root = if modes.given_rootDof then { st.links t.root with
          dvo := (spatialAccel (st.links t.root) ((st.links t.root).dv, (st.links t.root).dw)).1 }
        else st.links t.root := by
    rw [hcopy]
    split_ifs
    · exact ⟨fun i hi ↦ Function.update_of_ne (t.ne_root_of_mem_child hi) _ _,
        Function.update_self ..⟩
    · exact ⟨fun _ _ ↦ rfl, rfl⟩
  obtain ⟨hrestore, hrestoreRoot⟩ := restoreTorques_calcd1 t st₁.links
  have hjoint : ∀ i ∈ t.child.links, st'.links i = st.links i := fun i hi ↦ by
    rw [hst', ← hjoint₁ i hi]
    exact hrestore i hi
  have hroot : withoutTorque (st'.links t.root) = withoutTorque (st₁.links t.root) := by
    rw [hst']
    exact hrestoreRoot
  obtain ⟨hunloaded₁, hforce₁, hdw₁⟩ : unloaded (st₁.links t.root) = unloaded (st.links t.root) ∧
      externalForce (st₁.links t.root) = externalForce (st.links t.root) ∧
      (st₁.links t.root).dw = (st.links t.root).dw := by
    rw [hroot₁]
    split_ifs <;> exact ⟨rfl, rfl, rfl⟩
  have hunloaded : unloaded (st'.links t.root) = unloaded (st.links t.root) :=
    (congrArg unloaded hroot :).trans hunloaded₁
  have hforce : externalForce (st'.links t.root) = externalForce (st.links t.root) :=
    (congrArg externalForce hroot :).trans hforce₁
  have hdw : (st'.links t.root).dw = (st.links t.root).dw := (congrArg Link.dw hroot :).trans hdw₁
  have hother : OtherAccels modes t st.links st'.links :=
    ⟨fun i hi ↦ by rw [hjoint i hi], fun i hi _ ↦ by rw [hjoint i hi], ⟨hunloaded, hforce⟩,
      fun _ ↦ hdw⟩
  have hbetween : Between t st₂ st' F :=
    h.of_otherAccels hmodes (by rw [hst', hcopy]) (by rw [hst', hcopy]) (by rw [hst', hcopy]) hother
  refine ⟨hother, hbetween, ⟨by rw [hst'], ?_, ?_, fun hgiven ↦ ?_⟩,
    fun i hi ↦ by rw [hjoint i hi], fun hgiven ↦ ?_⟩
  · have hb1 : st₁.b1 = st₂.b1 := by rw [hcopy]; exact hst.b1
    have hM12 : st₁.M12 = st₂.M12 := by rw [hcopy]; exact h.M12
    rw [hst', ← hb1, ← hM12, ← hddqGiven]
  · intro d
    rw [hst']
    rcases d with d | i
    · rfl
    · refine calcd1_u_eq (hmodes.torque_mem _ (List.getElem_mem i.2)) (fun k hk ↦ ?_) fun k hk ↦ ?_
      · refine Eq.trans ?_ (h.rest k hk)
        rcases List.mem_cons.1 hk with rfl | hk
        · exact hunloaded₁
        · rw [hjoint₁ k hk]
      · refine Eq.trans ?_ (h.force k hk)
        rcases List.mem_cons.1 hk with rfl | hk
        · exact hforce₁
        · rw [hjoint₁ k hk]
  · have hunknown : modes.unknown_rootDof = false := by
      by_contra hunknown
      exact absurd (hmodes.root (by simpa using hunknown)) (by rw [hgiven]; decide)
    refine (congrArg Link.dvo hroot :).trans ?_
    rw [hroot₁, if_pos hgiven, h.dw hunknown]
    exact (congrArg (fun link : Link K ↦ (spatialAccel link (link.dv, (st₂.links t.root).dw)).1)
      (h.rest _ t.root_mem) :)
  · refine (congrArg accel hroot :).trans ?_
    rw [hroot₁, if_neg (by rw [hgiven]; decide)]
    rfl

/-- A test force: `d1` comes from the external forces with the test force among them, and the links
keep theirs. -/
theorem Between.solveTestForce (hmodes : modes.Sorted t) (h : Between t st₂ st F)
    (link : ι) (fext tauext rootfext roottauext : Vector3 K) :
    let st' := solveTestForce t solve link fext tauext rootfext roottauext st
    Between t st₂ st' F ∧ (Uninitialized st₂ st → Uninitialized st₂ st') ∧
      ∀ F', Biased t st₂ st F' → Biased t st₂ st' (Function.update F link (fext, tauext)) := by
  intro st'
  set s := Function.update st.links link (setExternalForce (fext, tauext) (st.links link)) with hs
  set r := restoreTorques t s (calcd1 t s).1 with hr
  set st₁ : State ι K modes := { st with
    d1 := Sum.elim 0 fun i ↦ ((calcd1 t s).1 (modes.torqueModeJoints.get i)).u
    links := Function.update r link (setExternalForce (externalForce (st.links link)) (r link)) }
    with hst₁
  have hst' : st' = solveUnknownAccelsFor t solve rootfext roottauext st₁ := rfl
  obtain ⟨hrestore, hrestoreRoot⟩ := restoreTorques_calcd1 t s
  have hunloaded : ∀ i, unloaded (s i) = unloaded (st.links i) := fun i ↦ by
    rcases eq_or_ne i link with rfl | hne
    · rw [hs, Function.update_self]
      rfl
    · rw [hs, Function.update_of_ne hne]
  have hforce : ∀ i ∈ t.links,
      externalForce (s i) = Function.update F link (fext, tauext) i := fun i hi ↦ by
    rcases eq_or_ne i link with rfl | hne
    · rw [hs, Function.update_self, Function.update_self]
      rfl
    · rw [hs, Function.update_of_ne hne, Function.update_of_ne hne, h.force i hi]
  -- the links get their own external forces back
  have hlinks : ∀ i, st₁.links i =
      if i = link then setExternalForce (externalForce (st.links i)) (r i) else r i := fun i ↦ by
    rcases eq_or_ne i link with rfl | hne
    · exact (Function.update_self ..).trans (if_pos rfl).symm
    · exact (Function.update_of_ne hne _ _).trans (if_neg hne).symm
  have hjoint : ∀ i ∈ t.child.links, st₁.links i = st.links i := fun i hi ↦ by
    rw [hlinks, hr, hrestore i hi, hs]
    split_ifs with heq
    · rw [heq, Function.update_self]
      rfl
    · rw [Function.update_of_ne heq]
  have hroot : withoutTorque (st₁.links t.root) = withoutTorque (st.links t.root) := by
    rw [← hr, hs] at hrestoreRoot
    rw [hlinks]
    split_ifs with heq
    · rw [heq, Function.update_self] at hrestoreRoot
      rw [heq]
      exact (congrArg (setExternalForce (externalForce (st.links link))) hrestoreRoot :)
    · rwa [Function.update_of_ne heq] at hrestoreRoot
  have hother : OtherAccels modes t st.links st₁.links :=
    ⟨fun i hi ↦ by rw [hjoint i hi], fun i hi _ ↦ by rw [hjoint i hi],
      ⟨(congrArg unloaded hroot :), (congrArg externalForce hroot :)⟩,
      fun _ ↦ (congrArg Link.dw hroot :)⟩
  have hbetween : Between t st₂ st₁ F := h.of_otherAccels hmodes rfl rfl rfl hother
  refine ⟨hbetween.of_otherAccels hmodes rfl rfl rfl
    (otherAccels_solveUnknownAccelsFor solve hmodes rootfext roottauext st₁),
    fun hst ↦ ⟨hst.accelSolverInitialized, hst.ddqGivenCopied, hst.b1⟩, fun F' hst ↦ ?_⟩
  have hbiased : Biased t st₂ st₁ (Function.update F link (fext, tauext)) := by
    refine ⟨hst.accelSolverInitialized, hst.b1, fun d ↦ ?_,
      fun hgiven ↦ (congrArg Link.dvo hroot :).trans (hst.dvo hgiven)⟩
    rcases d with d | i
    · rfl
    · exact calcd1_u_eq (hmodes.torque_mem _ (List.getElem_mem i.2))
        (fun k hk ↦ (hunloaded k).trans (h.rest k hk)) hforce
  exact hbiased.solveUnknownAccelsFor solve hmodes rootfext roottauext

/-- How far a solver is initialized: with the `d1` of some external forces, or not. -/
def Status (t : LinkTree ι) (st₂ st : State ι K modes) : Option (ι → Spatial K) → Prop
  | none => Uninitialized st₂ st
  | some F => Biased t st₂ st F

omit [DecidableEq ι] in
/-- The sums are not part of what the calls keep. -/
theorem Between.sumExternalForces (h : Between t st₂ st F) :
    Between t st₂ (ForwardDynamicsMM.sumExternalForces t st) F :=
  ⟨h.root_w_x_v, h.M11, h.M12, h.rest, h.force, h.u, h.ddq, h.dw⟩

variable {forces : Option (ι → Spatial K)}

theorem Status.sumExternalForces (h : Status t st₂ st forces) :
    Status t st₂ (ForwardDynamicsMM.sumExternalForces t st) forces := by
  cases forces with
  | none => exact ⟨h.accelSolverInitialized, h.ddqGivenCopied, h.b1⟩
  | some A => exact ⟨h.accelSolverInitialized, h.b1, h.d1, h.dvo⟩

theorem Between.step (hmodes : modes.Sorted t) (hany : isNoUnknownAccelMode modes = false)
    (h : Between t st₂ st fun i ↦ externalForce (st₂.links i)) (hst : Status t st₂ st forces)
    (c : Call ι K) : Between t st₂ (call t solve st c) (fun i ↦ externalForce (st₂.links i)) ∧
      Status t st₂ (call t solve st c) (biasForces st₂.links forces c) := by
  cases c with
  | sumExternalForces => exact ⟨h.sumExternalForces, hst.sumExternalForces⟩
  | solveUnknownAccels =>
    rw [call, solveUnknownAccels, if_neg (by rw [hany]; decide)]
    have hsolve := fun st ↦ otherAccels_solveUnknownAccelsFor (t := t) solve hmodes
      (ForwardDynamicsMM.initializeAccelSolver t st).fextTotal
      (ForwardDynamicsMM.initializeAccelSolver t st).tauextTotal
      (ForwardDynamicsMM.initializeAccelSolver t st)
    cases forces with
    | none =>
      obtain ⟨-, hbetween, hbiased, -⟩ := h.initializeAccelSolver hmodes hst
      exact ⟨hbetween.of_otherAccels hmodes rfl rfl rfl (hsolve st),
        hbiased.solveUnknownAccelsFor solve hmodes _ _⟩
    | some F =>
      have hinit : ForwardDynamicsMM.initializeAccelSolver t st = st :=
        if_pos hst.accelSolverInitialized
      specialize hsolve st
      rw [hinit] at hsolve ⊢
      exact ⟨h.of_otherAccels hmodes rfl rfl rfl hsolve,
        Biased.solveUnknownAccelsFor solve hmodes hst _ _⟩
  | testForce link fext tauext rootfext roottauext =>
    obtain ⟨hbetween, hnone, hsome⟩ :=
      h.solveTestForce solve hmodes link fext tauext rootfext roottauext
    refine ⟨hbetween, ?_⟩
    cases forces with
    | none => exact hnone hst
    | some F => exact hsome F hst

theorem Between.run (hmodes : modes.Sorted t) (hany : isNoUnknownAccelMode modes = false)
    (solve : Matrix (Unknown modes) (Unknown modes) K → (Unknown modes → K) → Unknown modes → K)
    {st₂ st : State ι K modes} {forces : Option (ι → Spatial K)}
    (h : Between t st₂ st fun i ↦ externalForce (st₂.links i)) (hst : Status t st₂ st forces)
    (calls : List (Call ι K)) :
    Between t st₂ (calls.foldl (call t solve) st) (fun i ↦ externalForce (st₂.links i)) ∧
      Status t st₂ (calls.foldl (call t solve) st)
        (calls.foldl (biasForces st₂.links) forces) := by
  induction calls generalizing st forces with
  | nil => exact ⟨h, hst⟩
  | cons c calls ih =>
    obtain ⟨hcall, hstatus⟩ := h.step solve hmodes hany hst c
    exact ih hcall hstatus

/-! ### The step after the calls -/

/-- Two initialized solvers give the same accelerations exactly when their external forces put the
same torques on the torque-mode joints. -/
theorem Biased.sameAccels_iff (hmodes : modes.Sorted t)
    (solve : Matrix (Unknown modes) (Unknown modes) K → (Unknown modes → K) → Unknown modes → K)
    {st₂ st st' : State ι K modes} {F A A' : ι → Spatial K} (hbetween : Between t st₂ st F)
    (hbetween' : Between t st₂ st' F) (h : Biased t st₂ st A) (h' : Biased t st₂ st' A')
    (hddq : ∀ i ∈ t.child.links, (st.links i).ddq = (st'.links i).ddq)
    (haccel : modes.unknown_rootDof = false → accel (st.links t.root) = accel (st'.links t.root))
    (fext tauext : Vector3 K) :
    SameAccels t (ForwardDynamicsMM.solveUnknownAccelsFor t solve fext tauext st).links
        (ForwardDynamicsMM.solveUnknownAccelsFor t solve fext tauext st').links ↔
      ∀ i ∈ modes.torqueModeJoints, jointTorque t st₂.links A i = jointTorque t st₂.links A' i := by
  have hmem : ∀ i : Fin modes.torqueModeJoints.length,
      modes.torqueModeJoints.get i ∈ t.child.links := fun i ↦
    hmodes.torque_mem _ (List.getElem_mem i.2)
  obtain ⟨hin, hout, hroot⟩ := solveUnknownAccelsFor_links solve hmodes fext tauext st
  obtain ⟨hin', hout', hroot'⟩ := solveUnknownAccelsFor_links solve hmodes fext tauext st'
  have hb1 : st.b1 = st'.b1 := h.b1.trans h'.b1.symm
  have hc1 : (setC1 fext tauext st.links : Unknown modes → K) = setC1 fext tauext st'.links := by
    funext d
    rcases d with ⟨k | k, _⟩ | i
    · rfl
    · rfl
    · exact (hbetween.u _ (hmem i)).trans (hbetween'.u _ (hmem i)).symm
  constructor
  · intro hsame i hi
    obtain ⟨k, hk, rfl⟩ := List.getElem_of_mem hi
    have hjoint := hsame.joint _ (hmem ⟨k, hk⟩)
    rw [hin, hin', hc1, hb1] at hjoint
    have hd1 : st.d1 (.inr ⟨k, hk⟩) = st'.d1 (.inr ⟨k, hk⟩) :=
      sub_right_injective (sub_left_injective hjoint)
    rw [h.d1, h'.d1] at hd1
    exact neg_injective hd1
  · intro htorque
    have hd1 : st.d1 = st'.d1 := by
      funext d
      rw [h.d1, h'.d1]
      rcases d with d | i
      · rfl
      · exact congrArg Neg.neg (htorque _ (List.getElem_mem i.2))
    refine ⟨?_, fun i hi ↦ ?_⟩
    · rw [hroot, hroot', hc1, hb1, hd1, hbetween.M11, hbetween'.M11, hbetween.root_w_x_v,
        hbetween'.root_w_x_v, setRootAccel, setRootAccel]
      split_ifs with hunknown
      · have hp : (st.links t.root).p = (st'.links t.root).p :=
          (congrArg Link.p
            ((hbetween.rest _ t.root_mem).trans (hbetween'.rest _ t.root_mem).symm) :)
        dsimp only [accel]
        rw [hp]
      · exact haccel (by simpa using hunknown)
    · by_cases hi' : i ∈ modes.torqueModeJoints
      · obtain ⟨k, hk, rfl⟩ := List.getElem_of_mem hi'
        have heq : (setC1 fext tauext st.links - st.d1 - st.b1 : Unknown modes → K) =
            setC1 fext tauext st'.links - st'.d1 - st'.b1 := by rw [hc1, hb1, hd1]
        exact (congrArg Link.ddq (hin ⟨k, hk⟩) :).trans
          ((congrFun heq (.inr ⟨k, hk⟩)).trans (congrArg Link.ddq (hin' ⟨k, hk⟩) :).symm)
      · rw [hout i hi hi', hout' i hi hi', hddq i hi]

theorem initializeAccelSolver_totals (st : State ι K modes) :
    (ForwardDynamicsMM.initializeAccelSolver t st).fextTotal = st.fextTotal ∧
      (ForwardDynamicsMM.initializeAccelSolver t st).tauextTotal = st.tauextTotal := by
  rw [ForwardDynamicsMM.initializeAccelSolver, copyGiven]
  split_ifs <;> exact ⟨rfl, rfl⟩

omit [DecidableEq ι] in
/-- Changing the external forces changes nothing else. -/
theorem Between.changeForces (h : Between t st₂ st F) (F' : ι → Spatial K) :
    Between t st₂ (ForwardDynamicsMM.changeForces F' st) F' :=
  ⟨h.root_w_x_v, h.M11, h.M12, h.rest, fun _ _ ↦ rfl, h.u, h.ddq, h.dw⟩

theorem Between.restart (hmodes : modes.Sorted t) (g : Vector3 K) {st now : State ι K modes}
    (h : Between t (calcMassMatrix t g st) now F) :
    Between t (calcMassMatrix t g st) (ForwardDynamicsMM.restart t g now) F ∧
      Uninitialized (calcMassMatrix t g st) (ForwardDynamicsMM.restart t g now) ∧
      Kept t now.links (ForwardDynamicsMM.restart t g now).links := by
  have hkept : Kept t st.links (calcMassMatrix t g st).links :=
    (calcMassMatrix_spec hmodes g st).2.2.2
  have hkept' : Kept t now.links (calcMassMatrix t g now).links :=
    (calcMassMatrix_spec hmodes g now).2.2.2
  have hrest : ∀ i ∈ t.links, unloaded (now.links i) = unloaded (st.links i) := fun i hi ↦
    (h.rest i hi).trans (congrArg (setExternalForce 0) (hkept.rest i hi))
  have hw : now.root_w_x_v = st.root_w_x_v := h.root_w_x_v
  obtain ⟨hM11, hM12, hb1⟩ := calcMassMatrix_congr hmodes g hw hrest
  refine ⟨⟨h.root_w_x_v, hM11, hM12, fun i hi ↦ ?_, fun i hi ↦ ?_, fun i hi ↦ ?_, fun i hi ↦ ?_,
    fun hunknown ↦ ?_⟩, ⟨rfl, rfl, hb1⟩, hkept'⟩
  · exact (congrArg (setExternalForce 0) (hkept'.rest i hi)).trans (h.rest i hi)
  · exact (congrArg externalForce (hkept'.rest i hi) :).trans (h.force i hi)
  · exact (hkept'.u i hi).trans (h.u i hi)
  · exact (hkept'.ddq i (List.mem_cons_of_mem _ (hmodes.highGain_mem i hi))).trans (h.ddq i hi)
  · exact (congrArg Prod.snd hkept'.root).trans (h.dw hunknown)

omit [DecidableEq ι] in
/-- The sums of the external forces, for links that are kept. -/
theorem sumExternalForces_totals {st st' : State ι K modes} (h : Kept t st.links st'.links) :
    (sumExternalForces t st').fextTotal = (sumExternalForces t st).fextTotal ∧
      (sumExternalForces t st').tauextTotal = (sumExternalForces t st).tauextTotal := by
  have hfext : (t.links.map fun i ↦ (st'.links i).fext).sum =
      (t.links.map fun i ↦ (st.links i).fext).sum :=
    congrArg List.sum (List.map_congr_left fun i hi ↦ (congrArg Link.fext (h.rest i hi) :))
  have htauext : (t.links.map fun i ↦ (st'.links i).tauext).sum =
      (t.links.map fun i ↦ (st.links i).tauext).sum :=
    congrArg List.sum (List.map_congr_left fun i hi ↦ (congrArg Link.tauext (h.rest i hi) :))
  have hp : (st'.links t.root).p = (st.links t.root).p :=
    (congrArg Link.p (h.rest _ t.root_mem) :)
  dsimp only [sumExternalForces]
  rw [hfext, htauext, hp]
  exact ⟨rfl, rfl⟩

/-- The solver that a step solves with: the one left by the calls, initialized if they have not. -/
theorem Between.initialized (hmodes : modes.Sorted t) (h : Between t st₂ st F)
    (hst : Status t st₂ st forces) :
    let st' := ForwardDynamicsMM.initializeAccelSolver t st
    Between t st₂ st' F ∧ Biased t st₂ st' (forces.getD F) ∧
      (∀ i ∈ t.child.links, (st'.links i).ddq = (st.links i).ddq) ∧
      (modes.given_rootDof = false → accel (st'.links t.root) = accel (st.links t.root)) := by
  intro st'
  cases forces with
  | none =>
    obtain ⟨-, hbetween, hbiased, hddq, haccel⟩ := h.initializeAccelSolver hmodes hst
    exact ⟨hbetween, hbiased, hddq, haccel⟩
  | some A =>
    have heq : st' = st := if_pos hst.accelSolverInitialized
    rw [heq]
    exact ⟨h, hst, fun _ _ ↦ rfl, fun _ ↦ rfl⟩

theorem Status.changeForces (h : Status t st₂ st forces) (F : ι → Spatial K) :
    Status t st₂ (ForwardDynamicsMM.changeForces F st) forces := by
  cases forces with
  | none => exact ⟨h.accelSolverInitialized, h.ddqGivenCopied, h.b1⟩
  | some A => exact ⟨h.accelSolverInitialized, h.b1, h.d1, h.dvo⟩

theorem solveStep_eq (hany : isNoUnknownAccelMode modes = false)
    (solve : Matrix (Unknown modes) (Unknown modes) K → (Unknown modes → K) → Unknown modes → K)
    (st : State ι K modes) :
    let sums := ForwardDynamicsMM.sumExternalForces t st
    solveStep t solve st = solveUnknownAccelsFor t solve sums.fextTotal sums.tauextTotal
      (ForwardDynamicsMM.initializeAccelSolver t sums) := by
  intro sums
  obtain ⟨hfext, htauext⟩ := initializeAccelSolver_totals (t := t) sums
  rw [solveStep, solveUnknownAccels, if_neg (by rw [hany]; decide), ← hfext, ← htauext]

end Kept

/-- **When test forces leave no trace.** After `calcMassMatrix`, any calls and any change of the
external forces, a step starts with the accelerations that a solver initialized anew computes
exactly when the external forces that `d1` comes from, if it has been computed, put the same torques
on the torque-mode joints as the present ones. -/
theorem leavesNoTrace_iff {modes : Modes ι} (t : LinkTree ι) (g : Vector3 K)
    (isHighGainMode : ι → Bool)
    (solve : Matrix (Unknown modes) (Unknown modes) K → (Unknown modes → K) → Unknown modes → K)
    (st : State ι K modes) (hmodes : modes = initializeModes t isHighGainMode st.links)
    (hany : isNoUnknownAccelMode modes = false) (hcopied : st.ddqGivenCopied = false)
    (calls : List (Call ι K)) (F : ι → Spatial K) :
    let st₂ := calcMassMatrix t g st
    LeavesNoTrace t g solve st₂ calls F ↔
      ∀ A, calls.foldl (biasForces st₂.links) none = some A → ∀ i ∈ modes.torqueModeJoints,
        jointTorque t st₂.links A i = jointTorque t st₂.links F i := by
  intro st₂
  have hsorted : modes.Sorted t := hmodes ▸ sorted_initializeModes t isHighGainMode st.links
  have hstart : Between t st₂ st₂ fun i ↦ externalForce (st₂.links i) :=
    ⟨rfl, rfl, rfl, fun _ _ ↦ rfl, fun _ _ ↦ rfl, fun _ _ ↦ rfl, fun _ _ ↦ rfl, fun _ ↦ rfl⟩
  obtain ⟨hrun, hstatus⟩ :=
    hstart.run hsorted hany solve (show Status t st₂ st₂ none from ⟨rfl, hcopied, rfl⟩) calls
  set forces := calls.foldl (biasForces st₂.links) none with hforces
  set now := changeForces F (calls.foldl (call t solve) st₂) with hnow
  have hbetween : Between t st₂ now F := hrun.changeForces F
  obtain ⟨hfresh, huninit, hkept⟩ := hbetween.restart hsorted g
  -- the solver as the calls left it, and the one initialized anew
  obtain ⟨hsums, hbiased, hddq, haccel⟩ :=
    hbetween.sumExternalForces.initialized hsorted (hstatus.changeForces F).sumExternalForces
  obtain ⟨hsums', hbiased', hddq', haccel'⟩ :=
    hfresh.sumExternalForces.initialized hsorted
      (show Status t st₂ _ none from huninit).sumExternalForces
  obtain ⟨hfext, htauext⟩ := sumExternalForces_totals hkept
  rw [LeavesNoTrace, ← hnow, solveStep_eq hany, solveStep_eq hany, hfext, htauext,
    hbiased.sameAccels_iff hsorted solve hsums hsums' hbiased' ?_ ?_]
  · cases forces with
    | none => exact iff_of_true (fun _ _ ↦ rfl) fun _ h ↦ by cases h
    | some A =>
      exact ⟨fun h A' hA' ↦ Option.some_inj.1 hA' ▸ h, fun h ↦ h A rfl⟩
  · intro i hi
    rw [hddq i hi, hddq' i hi]
    exact (hkept.ddq i (List.mem_cons_of_mem _ hi)).symm
  · intro hunknown
    rcases Bool.eq_false_or_eq_true modes.given_rootDof with hgiven | hgiven
    · exact Prod.ext ((hbiased.dvo hgiven).trans (hbiased'.dvo hgiven).symm)
        ((hsums.dw hunknown).trans (hsums'.dw hunknown).symm)
    · rw [haccel hgiven, haccel' hgiven]
      exact hkept.root.symm

/-! ### A drawer -/

/-- The constraint solver finds one contact on the drawer. -/
def contactCalls : List (Call (Fin 2) ℚ) :=
  [.sumExternalForces, .solveUnknownAccels, .testForce 1 ![1, 0, 0] 0 ![1, 0, 0] 0]

theorem leavesNoTrace_iff_heavyDrawer :
    let st₂ := calcMassMatrix oneJointTree 0 heavyDrawerState
    LeavesNoTrace oneJointTree 0 (fun A b ↦ A⁻¹ *ᵥ b) st₂ contactCalls 0 ↔
      ∀ A, contactCalls.foldl (biasForces st₂.links) none = some A →
        ∀ i ∈ heavyDrawerModes.torqueModeJoints,
          jointTorque oneJointTree st₂.links A i = jointTorque oneJointTree st₂.links 0 i :=
  leavesNoTrace_iff oneJointTree 0 (fun _ ↦ false) (fun A b ↦ A⁻¹ *ᵥ b) heavyDrawerState rfl
    (by decide) rfl contactCalls 0

/-- The drawer moves on as if the test force were still there. -/
theorem not_leavesNoTrace_heavyDrawer :
    ¬LeavesNoTrace oneJointTree 0 (fun A b ↦ A⁻¹ *ᵥ b)
      (calcMassMatrix oneJointTree 0 (calcPositionAndVelocityFK oneJointTree heavyDrawerState))
      contactCalls 0 := by
  intro h
  have hddq := h.joint 1 (by decide)
  revert hddq
  decide +kernel

end ForwardDynamicsMM

end OpenHRP
