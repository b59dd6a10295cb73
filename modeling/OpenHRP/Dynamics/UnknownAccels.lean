import OpenHRP.Dynamics.AffineInverseDynamics

/-!
# The accelerations that the mixed-mode solver stores

`solveUnknownAccels` solves the equations of motion for the unknown accelerations, and stores those
of the root. In the torque-mode joints it stores the right-hand side of the equations in place of
their solution: what is left of the torque of a joint when nothing unknown accelerates
(`netTorque`). So the stored accelerations satisfy the equations of motion exactly when that
happens to be the acceleration of every such joint (`isSolution_solveUnknownAccels_iff`). Where it
is, and no joint is in high-gain mode, they are those of the articulated-body method.
-/

open Matrix

namespace OpenHRP

namespace ForwardDynamicsMM

open ForwardDynamicsABM (accel axis crossVelocity biasForce externalForce calcABMPhase1Joint)

variable {ι K : Type*} [DecidableEq ι] [Field K]

/-! ### The equations of motion -/

/-- The external forces as a degree of freedom takes them. -/
def externalPart (t : LinkTree ι) (s : Store ι K) (d : Dof ι) : K :=
  generalizedForce t (s t.root).p (fun i ↦ axis (s i)) (fun k ↦ externalForce (s k)) d

/-- The equations of motion of the links `s` under the gravity acceleration `g`, for the spatial
acceleration `a` of the root and the joint accelerations `ddq`. -/
structure SatisfiesEquations (modes : Modes ι) (t : LinkTree ι) (g : Vector3 K) (s : Store ι K)
    (a : Spatial K) (ddq : ι → K) : Prop where
  /-- The torque at every torque-mode joint. -/
  torque : ∀ i ∈ modes.torqueModeJoints,
    newtonEulerForce t s (a + (g, 0)) ddq (.inr (.inr i)) - externalPart t s (.inr (.inr i)) +
      (s i).Jm2 * ddq i = (s i).u
  /-- The net force on a free root. -/
  force : modes.unknown_rootDof = true → ∀ k,
    newtonEulerForce t s (a + (g, 0)) ddq (.inl k) = externalPart t s (.inl k)
  /-- The net moment on a free root, about its position. -/
  moment : modes.unknown_rootDof = true → ∀ k,
    newtonEulerForce t s (a + (g, 0)) ddq (.inr (.inl k)) = externalPart t s (.inr (.inl k))

/-- Accelerations that satisfy the equations of motion with the given ones at the high-gain joints,
and with a root at rest unless it is free. -/
structure IsSolution (modes : Modes ι) (t : LinkTree ι) (g : Vector3 K) (s : Store ι K)
    (a : Spatial K) (ddq : ι → K) : Prop extends SatisfiesEquations modes t g s a ddq where
  fixed : modes.unknown_rootDof = false → a = spatialAccel (s t.root) 0
  highGain : ∀ i ∈ modes.highGainModeJoints, ddq i = (s i).ddq

/-- What is left of the torque of a joint when nothing unknown accelerates. -/
def netTorque (modes : Modes ι) (t : LinkTree ι) (g : Vector3 K) (s : Store ι K) (i : ι) : K :=
  (s i).u + externalPart t s (.inr (.inr i)) -
    newtonEulerForce t s (spatialAccel (s t.root) 0 + (g, 0))
      (fun i ↦ if i ∈ modes.torqueModeJoints then 0 else (s i).ddq) (.inr (.inr i))

section Rows

variable {modes : Modes ι} {t : LinkTree ι} {g : Vector3 K} {s : Store ι K}

/-- What drives the unknown accelerations: the torques, and the external forces. -/
def appliedForce (t : LinkTree ι) (s : Store ι K) : Unknown modes → K
  | .inl d => externalPart t s (Coord.dof (.inl d : Unknown modes))
  | .inr i => (s (modes.torqueModeJoints.get i)).u +
      externalPart t s (.inr (.inr (modes.torqueModeJoints.get i)))

theorem satisfiesEquations_iff {x : Unknown modes → K} {a : Spatial K} {ddq : ι → K}
    (h : ∀ i : Fin modes.torqueModeJoints.length, ddq (modes.torqueModeJoints.get i) = x (.inr i)) :
    SatisfiesEquations modes t g s a ddq ↔ ∀ d : Unknown modes,
      newtonEulerForce t s (a + (g, 0)) ddq d.dof + motorInertia s d * x d =
        appliedForce t s d := by
  constructor
  · intro heq d
    rcases d with ⟨k | k, hk⟩ | i
    · exact (congrArg (_ + ·) (zero_mul _)).trans ((add_zero _).trans (heq.force hk k))
    · exact (congrArg (_ + ·) (zero_mul _)).trans ((add_zero _).trans (heq.moment hk k))
    · have htorque := heq.torque _ (List.getElem_mem i.2)
      rw [sub_add_eq_add_sub, sub_eq_iff_eq_add] at htorque
      rw [appliedForce, ← h]
      exact htorque
  · intro heq
    refine ⟨fun i hi ↦ ?_, fun hk k ↦ ?_, fun hk k ↦ ?_⟩
    · obtain ⟨k, hk, rfl⟩ := List.getElem_of_mem hi
      have hrow := heq (.inr ⟨k, hk⟩)
      rw [← h] at hrow
      rw [sub_add_eq_add_sub, sub_eq_iff_eq_add]
      exact hrow
    · have hrow := heq (.inl ⟨.inl k, hk⟩)
      rwa [motorInertia, zero_mul, add_zero] at hrow
    · have hrow := heq (.inl ⟨.inr k, hk⟩)
      rwa [motorInertia, zero_mul, add_zero] at hrow

end Rows

/-! ### The state in which the equations are solved -/

section Solver

variable {modes : Modes ι} {t : LinkTree ι}

/-- `calcd1` leaves in every joint the torque of the negated external forces. -/
theorem calcd1_u (s : Store ι K) {i : ι} (hi : i ∈ t.child.links) :
    ((calcd1 t s).1 i).u = -externalPart t s (.inr (.inr i)) := by
  have hr : PassResult (fun _ link ↦ link) (fun link : Link K ↦ -externalForce link) t s
      (calcd1 t s) :=
    passResult_inverseDynamics (fun _ _ ↦ rfl) (fun _ _ _ ↦ rfl) (fun _ _ ↦ rfl) t s
  have hext : ∀ k ∈ t.links, -externalForce ((calcd1 t s).1 k) = -externalForce (s k) := by
    refine t.parent_induction ?_ fun p c hpc _ ↦ ?_
    · rw [hr.root]
      rfl
    · rw [hr.joint p c hpc]
      rfl
  obtain ⟨p, hp⟩ := t.exists_parent_of_mem_child hi
  have hneg := t.map_subtreeSum (-AddMonoidHom.id (Spatial K)) (fun k ↦ externalForce (s k)) i
  have hsum : t.subtreeSum (fun k ↦ -externalForce ((calcd1 t s).1 k)) i =
      -t.subtreeSum (fun k ↦ externalForce (s k)) i :=
    (t.subtreeSum_congr fun k hk ↦
      hext k ((t.below_sublist (List.mem_cons_of_mem _ hi)).subset hk)).trans hneg.symm
  rw [hr.joint p i hp, hsum, externalPart, generalizedForce, ← map_neg]
  rfl

theorem calcd1_links (s : Store ι K) :
    (∀ i ∈ t.child.links, withoutTorque ((calcd1 t s).1 i) = withoutTorque (s i)) ∧
      withoutTorque ((calcd1 t s).1 t.root) = withoutTorque (s t.root) := by
  have hr : PassResult (fun _ link ↦ link) (fun link : Link K ↦ -externalForce link) t s
      (calcd1 t s) :=
    passResult_inverseDynamics (fun _ _ ↦ rfl) (fun _ _ _ ↦ rfl) (fun _ _ ↦ rfl) t s
  refine ⟨fun i hi ↦ ?_, ?_⟩
  · obtain ⟨p, hp⟩ := t.exists_parent_of_mem_child hi
    rw [hr.joint p i hp]
    rfl
  · rw [hr.root]
    rfl

omit [DecidableEq ι] in
theorem eq_of_withoutTorque_eq {L L' : Link K} (h : withoutTorque L = withoutTorque L')
    (hu : L.u = L'.u) : L = L' := by
  have heq : L = { L' with u := L.u } :=
    (congrArg (fun M : Link K ↦ { M with u := L.u }) h :)
  rw [heq, hu]

/-- What `initializeAccelSolver` leaves, if the motion of the root is not given. -/
structure Initialized (t : LinkTree ι) (st st' : State ι K modes) : Prop where
  root_w_x_v : st'.root_w_x_v = st.root_w_x_v
  joint : ∀ i ∈ t.child.links, st'.links i = st.links i
  root : withoutTorque (st'.links t.root) = withoutTorque (st.links t.root)
  d1 : ∀ d, st'.d1 d =
    match d with
    | .inl _ => 0
    | .inr i => -externalPart t st.links (.inr (.inr (modes.torqueModeJoints.get i)))

theorem initialized_initializeAccelSolver (hmodes : modes.Sorted t)
    (hgiven : modes.given_rootDof = false) {st : State ι K modes}
    (hfresh : st.accelSolverInitialized = false) :
    Initialized t st (initializeAccelSolver t st) := by
  have hcopy : (copyGiven t st).links = st.links ∧
      (copyGiven t st).root_w_x_v = st.root_w_x_v := by
    rw [copyGiven]
    split_ifs with h hg
    · exact ⟨rfl, rfl⟩
    · rw [hgiven] at hg
      exact absurd hg (by decide)
    · exact ⟨rfl, rfl⟩
  have hlinks : (initializeAccelSolver t st).links =
      restoreTorques t st.links (calcd1 t st.links).1 := by
    rw [initializeAccelSolver, if_neg (by rw [hfresh]; decide), ← hcopy.1]
  refine ⟨?_, fun i hi ↦ ?_, ?_, fun d ↦ ?_⟩
  · rw [initializeAccelSolver, if_neg (by rw [hfresh]; decide)]
    exact hcopy.2
  · rw [hlinks, restoreTorques, t.jointLoop_of_mem _ _ hi]
    exact eq_of_withoutTorque_eq ((calcd1_links st.links).1 i hi) rfl
  · rw [hlinks, restoreTorques, t.jointLoop_of_notMem _ _ t.root_notMem_child]
    exact (calcd1_links st.links).2
  · rw [initializeAccelSolver, if_neg (by rw [hfresh]; decide)]
    rcases d with d | i
    · rfl
    · show ((calcd1 t (copyGiven t st).links).1 _).u = _
      rw [hcopy.1]
      exact calcd1_u st.links (hmodes.torque_mem _ (List.getElem_mem i.2))

theorem M11_initializeAccelSolver (st : State ι K modes) :
    (initializeAccelSolver t st).M11 = st.M11 := by
  rw [initializeAccelSolver, copyGiven]
  split_ifs <;> rfl

/-- The sums of the external forces are not read before the equations are solved. -/
theorem initializeAccelSolver_sumExternalForces (st : State ι K modes) :
    initializeAccelSolver t (sumExternalForces t st) =
      { initializeAccelSolver t st with
        fextTotal := (sumExternalForces t st).fextTotal
        tauextTotal := (sumExternalForces t st).tauextTotal } := by
  rw [initializeAccelSolver, initializeAccelSolver]
  have hfresh : (sumExternalForces t st).accelSolverInitialized = st.accelSolverInitialized := rfl
  have hcopy : copyGiven t (sumExternalForces t st) = { copyGiven t st with
      fextTotal := (sumExternalForces t st).fextTotal
      tauextTotal := (sumExternalForces t st).tauextTotal } := by
    rw [copyGiven, copyGiven]
    have hcopied : (sumExternalForces t st).ddqGivenCopied = st.ddqGivenCopied := rfl
    rw [hcopied]
    split_ifs <;> rfl
  rw [hfresh]
  split_ifs
  · rfl
  · rw [hcopy]

/-- The torques and external forces that drive the unknown accelerations are what the right-hand
side starts from. -/
theorem setC1_sumExternalForces (hmodes : modes.Sorted t) {st st' : State ι K modes}
    (h : Initialized t st st') (d : Unknown modes) :
    let sums := sumExternalForces t st
    setC1 sums.fextTotal sums.tauextTotal st'.links d - st'.d1 d = appliedForce t st.links d := by
  intro sums
  have hfst := t.map_subtreeSum (AddMonoidHom.fst (Vector3 K) (Vector3 K))
    (fun k ↦ externalForce (st.links k)) t.root
  have hsnd := t.map_subtreeSum (AddMonoidHom.snd (Vector3 K) (Vector3 K))
    (fun k ↦ externalForce (st.links k)) t.root
  rw [t.subtreeSum_root, t.subtreeSum_root] at hfst hsnd
  have hfext : sums.fextTotal = (t.links.map fun k ↦ externalForce (st.links k)).sum.1 := hfst.symm
  have htauext : sums.tauextTotal = (t.links.map fun k ↦ externalForce (st.links k)).sum.2 -
      (st.links t.root).p ⨯₃ (t.links.map fun k ↦ externalForce (st.links k)).sum.1 := by
    rw [← hfext, show (t.links.map fun k ↦ externalForce (st.links k)).sum.2 = _ from hsnd]
    rfl
  rw [h.d1]
  rcases d with ⟨k | k, hk⟩ | i
  · rw [setC1, hfext, sub_zero]
    rfl
  · rw [setC1, htauext, sub_zero]
    rfl
  · have hlink : st'.links (modes.torqueModeJoints.get i) =
        st.links (modes.torqueModeJoints.get i) :=
      h.joint _ (hmodes.torque_mem _ (List.getElem_mem i.2))
    rw [setC1, hlink]
    exact sub_neg_eq_add _ _

omit [Field K] in
theorem setTorqueModeAccel_spec (hmodes : modes.Sorted t) (c : Unknown modes → K)
    (links : Store ι K) :
    (∀ i : Fin modes.torqueModeJoints.length,
        setTorqueModeAccel c links (modes.torqueModeJoints.get i) =
          setDdq (c (.inr i)) (links (modes.torqueModeJoints.get i))) ∧
      ∀ i, i ∉ modes.torqueModeJoints → setTorqueModeAccel c links i = links i := by
  have hinj : Function.Injective fun i : Fin modes.torqueModeJoints.length ↦
      modes.torqueModeJoints.get i := fun i j h ↦
    Fin.ext ((List.Nodup.getElem_inj_iff hmodes.torque_nodup).1 h)
  obtain ⟨hin, hout⟩ := foldl_update_apply hinj (fun i ↦ setDdq (c (.inr i)))
    (List.nodup_finRange _) links
  exact ⟨fun i ↦ hin i (List.mem_finRange i),
    fun i hi ↦ hout i fun k _ h ↦ hi (h ▸ List.getElem_mem k.2)⟩

end Solver

/-! ### The stored accelerations -/

section Main

variable [CMath K] {modes : Modes ι}

/-- The root acceleration that the equations use: the stored one of a free root. -/
def storedRootAccel (modes : Modes ι) (before after : Link K) : Spatial K :=
  if modes.unknown_rootDof then accel after else spatialAccel before 0

/-- The accelerations are those that the articulated-body method finds from the state `s`, as far
as that method is sound: for symmetric inertia tensors, nonzero `dd`, and an invertible inertia of
a free root. -/
def AgreesWithABM (modes : Modes ι) (t : LinkTree ι) (g : Vector3 K) (s s' : Store ι K) : Prop :=
  ∀ solve : ForwardDynamicsABM.Solver K, (∀ A b, IsUnit A.det → A *ᵥ solve A b = b) →
    (∀ i ∈ t.links, (s i).I.IsSymm) →
    (∀ i ∈ t.links, i ≠ t.root → (s i).jointType ≠ .fixedJoint →
      (ForwardDynamicsABM.calcABMPhase2 t (ForwardDynamicsABM.calcABMPhase1 t g s) i).dd ≠ 0) →
    ((s t.root).jointType = .freeJoint → IsUnit (ForwardDynamicsABM.articulatedInertia
      (ForwardDynamicsABM.calcABMPhase2 t
        (ForwardDynamicsABM.calcABMPhase1 t g s) t.root)).det) →
    (modes.unknown_rootDof = true →
        accel (s' t.root) = accel (ForwardDynamicsABM.calcABMPhases t g solve s t.root)) ∧
      ∀ i ∈ modes.torqueModeJoints,
        (s' i).ddq = (ForwardDynamicsABM.calcABMPhases t g solve s i).ddq

omit [DecidableEq ι] [CMath K] in
/-- The acceleration of the root is that of unknown accelerations. -/
theorem exists_rootAccel {s : Store ι K} {t : LinkTree ι} {a : Spatial K} (ddq : ι → K)
    (hgiven : modes.given_rootDof = false)
    (ha : modes.unknown_rootDof = false → a = spatialAccel (s t.root) 0) :
    ∃ x : Unknown modes → K, (∀ i, x (.inr i) = ddq (modes.torqueModeJoints.get i)) ∧
      spatialAccel (s t.root) (rootAccel modes (s t.root) x) = a := by
  set root := s t.root with hroot
  refine ⟨Sum.elim (fun d ↦ d.1.elim (a.1 + a.2 ⨯₃ root.p + root.w ⨯₃ root.v) a.2)
    fun i ↦ ddq (modes.torqueModeJoints.get i), fun _ ↦ rfl, ?_⟩
  by_cases h : modes.unknown_rootDof = true
  · rw [rootAccel, dif_pos h]
    refine Prod.ext ?_ rfl
    show a.1 + a.2 ⨯₃ root.p + root.w ⨯₃ root.v - a.2 ⨯₃ root.p - root.w ⨯₃ root.v = a.1
    abel
  · rw [rootAccel, dif_neg h, if_neg (by rw [hgiven]; decide)]
    exact (ha (by simpa using h)).symm

/-! The articulated-body method starts from the same positions and velocities, with gravity among
the bias forces. -/

/-- What phase 1 of the articulated-body method has beyond the positions and velocities. -/
def addGravity (g : Vector3 K) (link : Link K) : Link K :=
  let fg := (-link.m) • g
  let tg := cross link.wc fg
  { link with
    Ivv := !![link.m, 0, 0; 0, link.m, 0; 0, 0, link.m], pf := link.pf - fg,
    ptau := link.ptau - tg }

omit [CMath K] in
theorem commonCalcs_eq (g : Vector3 K) (link : Link K) :
    ForwardDynamicsABM.commonCalcs g link = addGravity g (commonCalcs link) :=
  rfl

theorem calcABMPhase1Link_map (g : Vector3 K) (parent : Option (Link K)) (link : Link K) :
    ForwardDynamicsABM.calcABMPhase1Link g (parent.map (addGravity g)) link =
      addGravity g (calcPositionAndVelocityLink parent link) := by
  cases parent with
  | none => exact commonCalcs_eq g link
  | some parent =>
    have hjoint : calcABMPhase1Joint (addGravity g parent) link =
        calcABMPhase1Joint parent link := rfl
    show ForwardDynamicsABM.commonCalcs g (calcABMPhase1Joint (addGravity g parent) link) = _
    rw [hjoint]
    exact commonCalcs_eq g _

theorem calcABMPhase1_startLinks (t : LinkTree ι) (g : Vector3 K) (st : State ι K modes) :
    ∀ i ∈ t.links, ForwardDynamicsABM.calcABMPhase1 t g (startLinks t st) i =
      addGravity g ((calcPositionAndVelocityFK t st).links i) := by
  have hlink : ∀ i ∈ t.links, ForwardDynamicsABM.calcABMPhase1 t g (startLinks t st) i =
      ForwardDynamicsABM.calcABMPhase1Link g
        ((t.parent i).map (ForwardDynamicsABM.calcABMPhase1 t g (startLinks t st)))
        (startLinks t st i) :=
    fun i hi ↦ t.forwardLoop_eq _ _ hi
  refine t.parent_induction ?_ fun p c hpc ih ↦ ?_
  · rw [hlink _ t.root_mem, calcPositionAndVelocityFK_links st t.root_mem, t.parent_root]
    exact calcABMPhase1Link_map g none _
  · rw [hlink c (t.parent_mem hpc).2, calcPositionAndVelocityFK_links st (t.parent_mem hpc).2,
      hpc, Option.map_some, ih]
    exact calcABMPhase1Link_map g (some _) _

variable {st : State ι K modes}

theorem calcABMPhase1_eq (t : LinkTree ι) (g : Vector3 K)
    (hgiven : modes.given_rootDof = false) : ∀ i ∈ t.links,
    ForwardDynamicsABM.calcABMPhase1 t g st.links i =
      addGravity g ((calcPositionAndVelocityFK t st).links i) := by
  have hstart : startLinks t st = st.links := if_neg (by rw [hgiven]; decide)
  rw [← hstart]
  exact calcABMPhase1_startLinks t g st

section

omit [CMath K]

theorem inertia_addGravity (g : Vector3 K) (link : Link K) :
    ForwardDynamicsABM.inertia (addGravity g link) = inertia link := by
  have hIvv : !![link.m, 0, 0; 0, link.m, 0; 0, 0, link.m] = link.m • (1 : Matrix33 K) := by
    ext i j
    fin_cases i <;> fin_cases j <;> simp
  exact BlockInertia.ext hIvv rfl rfl

/-- Gravity among the bias forces is gravity in the acceleration. -/
theorem toLin_addGravity (g : Vector3 K) {link : Link K}
    (hIwv : link.Iwv = link.m • hat link.wc) (a : Spatial K) :
    (ForwardDynamicsABM.inertia (addGravity g link)).toLin a + biasForce (addGravity g link) =
      (inertia link).toLin (a + (g, 0)) + biasForce link := by
  have hgrav : (inertia link).toLin (g, 0) = (link.m • g, link.m • link.wc ⨯₃ g) := by
    refine Prod.ext ?_ ?_
    · show (link.m • (1 : Matrix33 K)) *ᵥ g + link.Iwvᵀ *ᵥ 0 = link.m • g
      rw [smul_mulVec, one_mulVec, mulVec_zero, add_zero]
    · show link.Iwv *ᵥ g + link.Iww *ᵥ 0 = link.m • link.wc ⨯₃ g
      rw [hIwv, smul_mulVec, hat_mulVec, mulVec_zero, add_zero]
  have hbias : biasForce (addGravity g link) =
      (link.m • g, link.m • link.wc ⨯₃ g) + biasForce link := by
    refine Prod.ext ?_ ?_
    · show link.pf - (-link.m) • g = link.m • g + link.pf
      module
    · show link.ptau - link.wc ⨯₃ ((-link.m) • g) = link.m • link.wc ⨯₃ g + link.ptau
      rw [LinearMap.map_smul]
      module
  rw [inertia_addGravity, hbias, map_add, hgrav, add_assoc]

end

/-- The accelerations along the joints, after the three phases. -/
theorem accel_calcABMPhases (t : LinkTree ι) (g : Vector3 K) (solve : ForwardDynamicsABM.Solver K)
    (hgiven : modes.given_rootDof = false) {p c : ι} (hpc : t.parent c = some p) :
    let s := (calcPositionAndVelocityFK t st).links
    let s₃ := ForwardDynamicsABM.calcABMPhases t g solve st.links
    accel (s₃ c) = accel (s₃ p) + (crossVelocity (s c) + (s₃ c).ddq • axis (s c)) := by
  intro s s₃
  have hs : ForwardDynamicsABM.calcABMPhase1 t g st.links c = addGravity g (s c) :=
    calcABMPhase1_eq t g hgiven c (t.parent_mem hpc).2
  set s₁ := ForwardDynamicsABM.calcABMPhase1 t g st.links with hs₁
  have hframe := ForwardDynamicsABM.calcABMPhase2_frame t s₁ c
  have hlink : s₃ c = ForwardDynamicsABM.calcABMPhase3Joint (s₃ p)
      (ForwardDynamicsABM.calcABMPhase2 t s₁ c) :=
    ForwardDynamicsABM.calcABMPhase3_joint t solve _ hpc
  set link := ForwardDynamicsABM.calcABMPhase2 t s₁ c with hlink₂
  have hcross : crossVelocity link = crossVelocity (s c) := by
    refine (congrArg ArticulatedBody.Joint.bias hframe.2).trans ?_
    rw [hs]
    rfl
  have haxis : axis link = axis (s c) := by
    refine (congrArg ArticulatedBody.Joint.axis hframe.2).trans ?_
    rw [hs]
    rfl
  rw [← hcross, ← haxis, hlink, ForwardDynamicsABM.calcABMPhase3Joint]
  by_cases hfixed : link.jointType = .fixedJoint
  · have htype : (st.links c).jointType = .fixedJoint := by
      rw [← ForwardDynamicsABM.calcABMPhase1_jointType t g st.links c, ← hs₁, ← hframe.1]
      exact hfixed
    have hzero : crossVelocity link = 0 :=
      (congrArg ArticulatedBody.Joint.bias hframe.2).trans
        (ForwardDynamicsABM.crossVelocity_calcABMPhase1 t g st.links hpc htype)
    rw [if_neg (not_not.2 hfixed), hzero, zero_add]
    exact (add_zero _).symm.trans (congrArg (accel (s₃ p) + ·) (zero_smul K _).symm)
  · rw [if_pos hfixed, ← add_assoc]
    rfl

/-- What the articulated-body method finds, read with gravity among the accelerations. -/
theorem newtonEulerForce_calcABMPhases (t : LinkTree ι) (g : Vector3 K)
    (solve : ForwardDynamicsABM.Solver K)
    (hgiven : modes.given_rootDof = false) {d : Dof ι} (hd : IsDof t d) :
    let s := (calcPositionAndVelocityFK t st).links
    let s₁ := ForwardDynamicsABM.calcABMPhase1 t g st.links
    let s₃ := ForwardDynamicsABM.calcABMPhases t g solve st.links
    newtonEulerForce t s (accel (s₃ t.root) + (g, 0)) (fun i ↦ (s₃ i).ddq) d =
      generalizedForce t (s t.root).p (fun i ↦ axis (s i))
        (ForwardDynamicsABM.ownForce s₁ s₃) d + externalPart t s d := by
  intro s s₁ s₃
  have hgrow : ∀ i ∈ t.links, accel (s₃ i) + (g, 0) = t.grow (accel (s₃ t.root) + (g, 0))
      (fun i ↦ crossVelocity (s i) + (s₃ i).ddq • axis (s i)) i :=
    t.eq_grow (V := fun i ↦ accel (s₃ i) + (g, 0)) rfl fun p c hpc ↦ by
      rw [accel_calcABMPhases t g solve hgiven hpc, add_right_comm]
  rw [newtonEulerForce, externalPart, ← generalizedForce_add]
  refine generalizedForce_congr t _ hd (fun _ _ ↦ rfl) fun k hk ↦ ?_
  have hs : s₁ k = addGravity g (s k) := calcABMPhase1_eq t g hgiven k hk
  have hIwv : (s k).Iwv = (s k).m • hat (s k).wc := Iwv_calcPositionAndVelocityFK st hk
  have hext : externalForce (s₁ k) = externalForce (s k) := by rw [hs]; rfl
  have hforce := toLin_addGravity g hIwv (accel (s₃ k))
  rw [← hs] at hforce
  rw [← hgrow k hk, ForwardDynamicsABM.ownForce, hext, sub_add_cancel, hforce]

/-- **The articulated-body method solves the same equations.** -/
theorem isSolution_calcABMPhases (t : LinkTree ι) (g : Vector3 K)
    (solve : ForwardDynamicsABM.Solver K) {isHighGainMode : ι → Bool}
    (hmodes : modes = initializeModes t isHighGainMode st.links)
    (hgiven : modes.given_rootDof = false) (hgain : modes.highGainModeJoints = [])
    (hrest : modes.unknown_rootDof = false →
      (st.links t.root).w ⨯₃ ((st.links t.root).vo +
        (st.links t.root).w ⨯₃ (st.links t.root).p) = 0)
    (hsolve : ∀ A b, IsUnit A.det → A *ᵥ solve A b = b)
    (hI : ∀ i ∈ t.links, (st.links i).I.IsSymm)
    (hdd : ∀ i ∈ t.links, i ≠ t.root → (st.links i).jointType ≠ .fixedJoint →
      (ForwardDynamicsABM.calcABMPhase2 t
        (ForwardDynamicsABM.calcABMPhase1 t g st.links) i).dd ≠ 0)
    (hroot : (st.links t.root).jointType = .freeJoint → IsUnit
      (ForwardDynamicsABM.articulatedInertia (ForwardDynamicsABM.calcABMPhase2 t
        (ForwardDynamicsABM.calcABMPhase1 t g st.links) t.root)).det) :
    let s₃ := ForwardDynamicsABM.calcABMPhases t g solve st.links
    IsSolution modes t g (calcPositionAndVelocityFK t st).links (accel (s₃ t.root))
      fun i ↦ (s₃ i).ddq := by
  intro s₃
  have hsorted : modes.Sorted t := hmodes ▸ sorted_initializeModes t isHighGainMode st.links
  set s := (calcPositionAndVelocityFK t st).links with hs
  set s₁ := ForwardDynamicsABM.calcABMPhase1 t g st.links with hs₁
  have heq : ∀ i ∈ t.links, s₁ i = addGravity g (s i) := calcABMPhase1_eq t g hgiven
  have hforce : ∀ d, IsDof t d → newtonEulerForce t s (accel (s₃ t.root) + (g, 0))
      (fun i ↦ (s₃ i).ddq) d = generalizedForce t (s t.root).p (fun i ↦ axis (s i))
        (ForwardDynamicsABM.ownForce s₁ s₃) d + externalPart t s d := fun d hd ↦
    newtonEulerForce_calcABMPhases t g solve hgiven hd
  have hzero : modes.unknown_rootDof = true →
      (t.links.map (ForwardDynamicsABM.ownForce s₁ s₃)).sum = 0 := fun h ↦ by
    rw [hmodes] at h
    have hfree := (of_decide_eq_true h).1
    rw [← t.subtreeSum_root]
    exact ForwardDynamicsABM.rootForce_calcABMPhases t g solve st.links hfree (hroot hfree) hsolve
  refine ⟨⟨fun i hi ↦ ?_, fun h k ↦ ?_, fun h k ↦ ?_⟩, fun h ↦ ?_, fun i hi ↦ ?_⟩
  · have hchild : i ∈ t.child.links := hsorted.torque_mem i hi
    have hmem : i ∈ t.links := List.mem_cons_of_mem _ hchild
    have hmoving : IsMoving (st.links i) := by
      rw [hmodes] at hi
      exact (of_decide_eq_true (List.mem_filter.1 hi).2).1
    have hnot : (st.links i).jointType ≠ .fixedJoint := fun h ↦ by
      rcases hmoving with hr | hr <;> rw [h] at hr <;> exact absurd hr (by decide)
    have htorque : spatialDot (axis (s₁ i)) (ForwardDynamicsABM.linkForce t s₁ s₃ i) =
        (s₁ i).u - (s₁ i).Jm2 * (s₃ i).ddq :=
      ForwardDynamicsABM.jointTorque_calcABMPhases t g solve st.links hI hdd i hmem
        (t.ne_root_of_mem_child hchild) hnot
    rw [heq i hmem] at htorque
    rw [hforce (.inr (.inr i)) hchild, add_sub_cancel_right, ← eq_sub_iff_add_eq]
    exact htorque
  · rw [hforce (.inl k) trivial, add_eq_right, generalizedForce, hzero h]
    rfl
  · rw [hforce (.inr (.inl k)) trivial, add_eq_right, generalizedForce, hzero h, Prod.fst_zero,
      Prod.snd_zero, cross, map_zero, sub_zero]
    rfl
  · have hnot : (st.links t.root).jointType ≠ .freeJoint := fun hfree ↦ by
      rw [hmodes] at h hgiven
      exact of_decide_eq_false h ⟨hfree, fun hc ↦ of_decide_eq_false hgiven ⟨hfree, hc⟩⟩
    have hready : RootReady modes (st.links t.root) (s t.root) :=
      rootReady_calcPositionAndVelocityFK st
    have hstill : cross (s t.root).w (s t.root).v = 0 := by
      rw [hready.v, hready.vo hgiven, hready.w, hready.p]
      exact hrest h
    have hroot₃ : accel (s₃ t.root) = 0 := by
      have hlink : s₃ t.root = _ := ForwardDynamicsABM.calcABMPhase3_root t solve _
      rw [hlink, ForwardDynamicsABM.calcABMPhase3Root, if_neg ?_]
      · rfl
      · rw [(ForwardDynamicsABM.calcABMPhase2_frame t _ _).1,
          ForwardDynamicsABM.calcABMPhase1_jointType]
        exact hnot
    rw [hroot₃, spatialAccel, hstill, Prod.snd_zero, cross, LinearMap.map_zero₂,
      Prod.fst_zero, sub_zero,
      sub_zero]
    rfl
  · rw [hgain] at hi
    exact absurd hi List.not_mem_nil

variable (t : LinkTree ι) (g : Vector3 K) {isHighGainMode : ι → Bool} {st : State ι K modes}
  (hmodes : modes = initializeModes t isHighGainMode st.links)
  (hgiven : modes.given_rootDof = false) (hcopied : st.ddqGivenCopied = false) {ddq : ι → K}
  {x : Unknown modes → K}

include hmodes hgiven hcopied in
/-- The equations that are set up, without a given motion of the root. -/
theorem mulVec_add_b1_of_not_given
    (h : IsJointAccel modes (calcPositionAndVelocityFK t st).links x ddq) (d : Unknown modes) :
    let st₁ := calcPositionAndVelocityFK t st
    let st' := initializeAccelSolver t (calcMassMatrix t g st₁)
    let root := st₁.links t.root
    (st'.M11 *ᵥ x + st'.b1) d = newtonEulerForce t st₁.links
      (spatialAccel root (rootAccel modes root x) + (g, 0)) ddq d.dof +
        motorInertia st₁.links d * x d := by
  intro st₁ st' root
  have hcarry : generalizedForce t root.p (fun i ↦ axis (st₁.links i)) (fun k ↦
      (inertia (st₁.links k)).toLin
        (-if modes.given_rootDof then excessAccel (st.links t.root) else 0, 0)) d.dof = 0 := by
    rw [if_neg (by rw [hgiven]; decide)]
    simp only [neg_zero, Prod.mk_zero_zero, map_zero]
    exact generalizedForce_zero t _ _ d.dof
  refine (mulVec_add_b1_eq t g isHighGainMode st hmodes hcopied h d).trans ?_
  rw [hcarry, add_zero]

include hmodes hgiven hcopied in
/-- The equations of motion are the linear equations that are set up. -/
theorem satisfiesEquations_iff_mulVec
    (h : IsJointAccel modes (calcPositionAndVelocityFK t st).links x ddq) :
    let st₁ := calcPositionAndVelocityFK t st
    let st' := initializeAccelSolver t (calcMassMatrix t g st₁)
    let root := st₁.links t.root
    SatisfiesEquations modes t g st₁.links (spatialAccel root (rootAccel modes root x)) ddq ↔
      st'.M11 *ᵥ x = appliedForce t st₁.links - st'.b1 := by
  intro st₁ st' root
  rw [satisfiesEquations_iff h.torque, eq_sub_iff_add_eq, funext_iff]
  exact forall_congr' fun d ↦ by
    rw [← mulVec_add_b1_of_not_given t g hmodes hgiven hcopied h d]

include hmodes hgiven hcopied in
/-- What is left of the torques is the right-hand side of the equations. -/
theorem netTorque_eq (i : Fin modes.torqueModeJoints.length) :
    let st₁ := calcPositionAndVelocityFK t st
    let st' := initializeAccelSolver t (calcMassMatrix t g st₁)
    netTorque modes t g st₁.links (modes.torqueModeJoints.get i) =
      appliedForce t st₁.links (.inr i : Unknown modes) - st'.b1 (.inr i) := by
  intro st₁ st'
  have hsorted : modes.Sorted t := hmodes ▸ sorted_initializeModes t isHighGainMode st.links
  have hjoint : IsJointAccel modes st₁.links 0
      fun i ↦ if i ∈ modes.torqueModeJoints then 0 else (st₁.links i).ddq :=
    ⟨fun i ↦ if_pos (List.getElem_mem i.2),
      fun i hi ↦ if_neg fun htorque ↦ hsorted.disjoint i htorque hi⟩
  have hrow : (st'.M11 *ᵥ 0 + st'.b1) (.inr i) = _ :=
    mulVec_add_b1_of_not_given t g hmodes hgiven hcopied hjoint (.inr i)
  have hroot : rootAccel modes (st₁.links t.root) 0 = 0 := by
    rw [rootAccel]
    split_ifs with h hg
    · rfl
    · rw [hgiven] at hg
      exact absurd hg (by decide)
    · rfl
  rw [mulVec_zero, zero_add, hroot, Pi.zero_apply, mul_zero, add_zero] at hrow
  exact (congrArg (_ - ·) hrow.symm :)

include hmodes hgiven hcopied in
/-- With an invertible `M11` the equations have one solution: the one the solver finds. -/
theorem IsSolution.eq {solve : Matrix (Unknown modes) (Unknown modes) K → (Unknown modes → K) →
      Unknown modes → K} (hsolve : ∀ A b, IsUnit A.det → A *ᵥ solve A b = b)
    (hinv : IsUnit (calcMassMatrix t g (calcPositionAndVelocityFK t st)).M11.det)
    {a : Spatial K}
    (h : IsSolution modes t g (calcPositionAndVelocityFK t st).links a ddq) :
    let st₁ := calcPositionAndVelocityFK t st
    let st' := initializeAccelSolver t (calcMassMatrix t g st₁)
    let x := solve st'.M11 (appliedForce t st₁.links - st'.b1)
    a = spatialAccel (st₁.links t.root) (rootAccel modes (st₁.links t.root) x) ∧
      ∀ i, ddq (modes.torqueModeJoints.get i) = x (.inr i) := by
  intro st₁ st' x
  obtain ⟨y, hy, hroot⟩ := exists_rootAccel ddq hgiven h.fixed
  have hjoint : IsJointAccel modes st₁.links y ddq := ⟨fun i ↦ (hy i).symm, h.highGain⟩
  have hmul : st'.M11 *ᵥ y = appliedForce t st₁.links - st'.b1 := by
    refine (satisfiesEquations_iff_mulVec t g hmodes hgiven hcopied hjoint).1 ?_
    rw [hroot]
    exact h.toSatisfiesEquations
  have hyx : y = x := by
    have hdet : IsUnit st'.M11.det := by rwa [← M11_initializeAccelSolver (t := t)] at hinv
    have hinj := Matrix.mulVec_injective_of_isUnit ((Matrix.isUnit_iff_isUnit_det _).2 hdet)
    exact hinj (hmul.trans (hsolve _ _ hdet).symm)
  rw [← hyx]
  exact ⟨hroot.symm, fun i ↦ (hy i).symm⟩

include hmodes hgiven in
theorem solveUnknownAccels_spec (solve : Matrix (Unknown modes) (Unknown modes) K →
      (Unknown modes → K) → Unknown modes → K) (hany : isNoUnknownAccelMode modes = false) :
    let st₁ := calcPositionAndVelocityFK t st
    let st' := initializeAccelSolver t (calcMassMatrix t g st₁)
    let st₄ := solveUnknownAccels t solve (sumExternalForces t (calcMassMatrix t g st₁))
    let c := appliedForce t st₁.links - st'.b1
    let x := solve st'.M11 c
    storedRootAccel modes (st₁.links t.root) (st₄.links t.root) =
        spatialAccel (st₁.links t.root) (rootAccel modes (st₁.links t.root) x) ∧
      (∀ i, (st₄.links (modes.torqueModeJoints.get i)).ddq = c (.inr i)) ∧
      ∀ i ∈ modes.highGainModeJoints, (st₄.links i).ddq = (st₁.links i).ddq := by
  intro st₁ st' st₄ c x
  have hsorted : modes.Sorted t := hmodes ▸ sorted_initializeModes t isHighGainMode st.links
  set st₂ := calcMassMatrix t g st₁ with hst₂
  have hkept : Kept t st₁.links st₂.links := (calcMassMatrix_spec hsorted g st₁).2.2.2
  have hinit : Initialized t st₂ st' := initialized_initializeAccelSolver hsorted hgiven rfl
  have happlied : ∀ d, appliedForce t st₂.links d = appliedForce t st₁.links d := fun d ↦ by
    have hext : ∀ d : Dof ι, IsDof t d → externalPart t st₂.links d = externalPart t st₁.links d :=
      fun d hd ↦ by
        have hp : (st₂.links t.root).p = (st₁.links t.root).p :=
          (congrArg Link.p (hkept.rest _ t.root_mem) :)
        rw [externalPart, externalPart, hp]
        exact generalizedForce_congr t _ hd
          (fun i hi ↦ axis_congr (hkept.rest i (List.mem_cons_of_mem _ hi)))
          fun k hk ↦ (congrArg externalForce (hkept.rest k hk) :)
    rcases d with d | i
    · exact hext _ (Coord.isDof hsorted.torque_mem (.inl d))
    · have hi : modes.torqueModeJoints.get i ∈ t.child.links :=
        hsorted.torque_mem _ (List.getElem_mem i.2)
      rw [appliedForce, appliedForce, hkept.u _ hi, hext (.inr (.inr _)) hi]
  have hc : setC1 (sumExternalForces t st₂).fextTotal (sumExternalForces t st₂).tauextTotal
      st'.links - st'.d1 - st'.b1 = c := by
    funext d
    exact congrArg (· - st'.b1 d) ((setC1_sumExternalForces hsorted hinit d).trans (happlied d))
  have hlinks : st₄.links = setTorqueModeAccel c (Function.update st'.links t.root
      (setRootAccel st'.root_w_x_v x (st'.links t.root))) := by
    have hst₄ : st₄ = solveUnknownAccelsFor t solve (sumExternalForces t st₂).fextTotal
        (sumExternalForces t st₂).tauextTotal
          (initializeAccelSolver t (sumExternalForces t st₂)) := by
      show solveUnknownAccels t solve _ = _
      rw [solveUnknownAccels, if_neg (by rw [hany]; decide),
        initializeAccelSolver_sumExternalForces]
    have hx : x = solve st'.M11 (setC1 (sumExternalForces t st₂).fextTotal
        (sumExternalForces t st₂).tauextTotal st'.links - st'.d1 - st'.b1) := by rw [hc]
    rw [hst₄, initializeAccelSolver_sumExternalForces, hx, ← hc]
    rfl
  obtain ⟨hin, hout⟩ := setTorqueModeAccel_spec hsorted c (Function.update st'.links t.root
    (setRootAccel st'.root_w_x_v x (st'.links t.root)))
  have hready : RootReady modes (st.links t.root) (st₁.links t.root) :=
    rootReady_calcPositionAndVelocityFK st
  refine ⟨?_, fun i ↦ ?_, fun i hi ↦ ?_⟩
  · rw [storedRootAccel, rootAccel]
    by_cases h : modes.unknown_rootDof = true
    · have hp : (st'.links t.root).p = (st₁.links t.root).p :=
        (congrArg Link.p hinit.root :).trans (congrArg Link.p (hkept.rest _ t.root_mem) :)
      have hw : st'.root_w_x_v = cross (st₁.links t.root).w (st₁.links t.root).v := by
        rw [hinit.root_w_x_v, hready.v, hready.vo hgiven, hready.w, hready.p]
        rfl
      rw [if_pos h, dif_pos h, hlinks, hout _ fun hr ↦
        t.root_notMem_child (hsorted.torque_mem _ hr), Function.update_self, setRootAccel,
        dif_pos h, spatialAccel, ← hp, ← hw]
      rfl
    · rw [if_neg h, dif_neg h, if_neg (by rw [hgiven]; decide)]
  · rw [hlinks, hin]
    rfl
  · have hchild : i ∈ t.child.links := hsorted.highGain_mem i hi
    rw [hlinks, hout _ fun htorque ↦ hsorted.disjoint i htorque hi,
      Function.update_of_ne (t.ne_root_of_mem_child hchild), hinit.joint i hchild,
      hkept.ddq i (List.mem_cons_of_mem _ hchild)]

/-- **When the stored accelerations satisfy the equations of motion.** For every body whose root
has no given motion, with an invertible `M11` and an exact solver: the accelerations that
`solveUnknownAccels` stores solve the equations of motion (and, without high-gain joints, are those
of the articulated-body method) exactly when in their solution every torque-mode joint happens to
have its net torque for its acceleration. -/
theorem isSolution_solveUnknownAccels_iff (t : LinkTree ι) (g : Vector3 K)
    (isHighGainMode : ι → Bool) (st : State ι K modes)
    (hmodes : modes = initializeModes t isHighGainMode st.links)
    (hgiven : modes.given_rootDof = false) (hcopied : st.ddqGivenCopied = false)
    (solve : Matrix (Unknown modes) (Unknown modes) K → (Unknown modes → K) → Unknown modes → K)
    (hsolve : ∀ A b, IsUnit A.det → A *ᵥ solve A b = b) :
    let st₁ := calcPositionAndVelocityFK t st
    let st₂ := calcMassMatrix t g st₁
    let st₄ := solveUnknownAccels t solve (sumExternalForces t st₂)
    let root := st.links t.root
    IsUnit st₂.M11.det →
      ((IsSolution modes t g st₁.links
            (storedRootAccel modes (st₁.links t.root) (st₄.links t.root))
            (fun i ↦ (st₄.links i).ddq) ∧
          (modes.highGainModeJoints = [] →
            (modes.unknown_rootDof = false → root.w ⨯₃ (root.vo + root.w ⨯₃ root.p) = 0) →
            AgreesWithABM modes t g st.links st₄.links)) ↔
        ∀ a ddq, IsSolution modes t g st₁.links a ddq → ∀ i ∈ modes.torqueModeJoints,
          ddq i = netTorque modes t g st₁.links i) := by
  intro st₁ st₂ st₄ root hinv
  have hsorted : modes.Sorted t := hmodes ▸ sorted_initializeModes t isHighGainMode st.links
  rcases Bool.eq_false_or_eq_true (isNoUnknownAccelMode modes) with hany | hany
  · -- nothing is unknown, and nothing happens
    have hkept : Kept t st₁.links st₂.links := (calcMassMatrix_spec hsorted g st₁).2.2.2
    have hst₄ : st₄ = sumExternalForces t st₂ := if_pos hany
    obtain ⟨hunknown, htorque⟩ : modes.unknown_rootDof = false ∧ modes.torqueModeJoints = [] := by
      simpa [isNoUnknownAccelMode] using hany
    have hnot : ¬modes.unknown_rootDof = true := by rw [hunknown]; decide
    have hnone : ∀ i, i ∉ modes.torqueModeJoints := fun i ↦ htorque ▸ List.not_mem_nil
    refine iff_of_true ⟨⟨⟨fun i hi ↦ absurd hi (hnone i), fun h ↦ absurd h hnot,
      fun h ↦ absurd h hnot⟩, fun _ ↦ if_neg hnot, fun i hi ↦ ?_⟩, fun _ _ solve' _ _ _ _ ↦ ?_⟩
      fun _ _ _ i hi ↦ absurd hi (hnone i)
    · rw [hst₄]
      exact hkept.ddq i (List.mem_cons_of_mem _ (hsorted.highGain_mem i hi))
    · exact ⟨fun h ↦ absurd h hnot, fun i hi ↦ absurd hi (hnone i)⟩
  · obtain ⟨hroot, htorque, hgain⟩ :=
      solveUnknownAccels_spec t g hmodes hgiven solve hany
    set st' := initializeAccelSolver t st₂ with hst'
    set c := appliedForce t st₁.links - st'.b1 with hc
    set x := solve st'.M11 c with hx
    have hdet : IsUnit st'.M11.det := by
      rw [hst', M11_initializeAccelSolver]
      exact hinv
    have hinj := Matrix.mulVec_injective_of_isUnit ((Matrix.isUnit_iff_isUnit_det _).2 hdet)
    have hmul : st'.M11 *ᵥ x = c := hsolve _ _ hdet
    have heq : ∀ {a ddq}, IsSolution modes t g st₁.links a ddq →
        a = spatialAccel (st₁.links t.root) (rootAccel modes (st₁.links t.root) x) ∧
          ∀ i, ddq (modes.torqueModeJoints.get i) = x (.inr i) := fun h ↦
      IsSolution.eq t g hmodes hgiven hcopied hsolve hinv h
    have hfixed : ∀ y : Unknown modes → K, modes.unknown_rootDof = false →
        spatialAccel (st₁.links t.root) (rootAccel modes (st₁.links t.root) y) =
          spatialAccel (st₁.links t.root) 0 := fun y h ↦ by
      rw [rootAccel, dif_neg (by rw [h]; decide), if_neg (by rw [hgiven]; decide)]
    have hsolution : ∀ {y ddq}, IsJointAccel modes st₁.links y ddq → st'.M11 *ᵥ y = c →
        IsSolution modes t g st₁.links
          (spatialAccel (st₁.links t.root) (rootAccel modes (st₁.links t.root) y)) ddq :=
      fun hjoint h ↦
        ⟨(satisfiesEquations_iff_mulVec t g hmodes hgiven hcopied hjoint).2 h, hfixed _,
          hjoint.highGain⟩
    -- the stored accelerations: those of the root are solved for, those of the joints are not
    set y : Unknown modes → K := Sum.elim (fun d ↦ x (.inl d)) fun i ↦ c (.inr i) with hy
    have hrooty : rootAccel modes (st₁.links t.root) y = rootAccel modes (st₁.links t.root) x := rfl
    have hjoint : IsJointAccel modes st₁.links y fun i ↦ (st₄.links i).ddq := ⟨htorque, hgain⟩
    have hnet : ∀ i : Fin modes.torqueModeJoints.length,
        netTorque modes t g st₁.links (modes.torqueModeJoints.get i) = c (.inr i) :=
      netTorque_eq t g hmodes hgiven hcopied
    have hyx : y = x ↔ ∀ i, x (.inr i) = c (.inr i) := by
      constructor
      · intro h i
        exact (congrFun h (.inr i)).symm
      · intro h
        funext d
        rcases d with d | i
        · rfl
        · exact (h i).symm
    constructor
    · rintro ⟨hstored, -⟩ a ddq h i hi
      obtain ⟨k, hk, rfl⟩ := List.getElem_of_mem hi
      have hk' : ∀ j, x (.inr j) = c (.inr j) := fun j ↦
        ((heq hstored).2 j).symm.trans (htorque j)
      exact ((heq h).2 ⟨k, hk⟩).trans ((hk' ⟨k, hk⟩).trans (hnet ⟨k, hk⟩).symm)
    · intro h
      -- the solution as joint accelerations
      set ddq : ι → K := fun i ↦
        if i ∈ modes.torqueModeJoints then coordRate x i else (st₁.links i).ddq with hddq
      have hjointx : IsJointAccel modes st₁.links x ddq :=
        ⟨fun i ↦ (if_pos (List.getElem_mem i.2)).trans
          (coordRate_getElem hsorted.torque_nodup x i),
          fun i hi ↦ if_neg fun htorque ↦ hsorted.disjoint i htorque hi⟩
      have hx' : y = x := hyx.2 fun i ↦
        (hjointx.torque i).symm.trans
          ((h _ _ (hsolution hjointx hmul) _ (List.getElem_mem i.2)).trans (hnet i))
      have hstored := hsolution hjoint (hx'.symm ▸ hmul)
      rw [hrooty, ← hroot] at hstored
      refine ⟨hstored, fun hnone hrest solve' hsolve' hI hdd hinv' ↦ ?_⟩
      have habm := heq (isSolution_calcABMPhases t g solve' hmodes hgiven hnone hrest hsolve' hI
        hdd hinv')
      refine ⟨fun hunknown ↦ ?_, fun i hi ↦ ?_⟩
      · have hafter : storedRootAccel modes (st₁.links t.root) (st₄.links t.root) =
            accel (st₄.links t.root) := if_pos hunknown
        rw [← hafter, hroot, habm.1]
      · obtain ⟨k, hk, rfl⟩ := List.getElem_of_mem hi
        exact ((heq hstored).2 ⟨k, hk⟩).trans (habm.2 ⟨k, hk⟩).symm

end Main

/-- A fixed base with a heavy drawer: a slide joint along the first axis with the mass two, pushed
by a unit force. -/
def heavyDrawer (i : Fin 2) : Link ℚ :=
  if i = 0 then Link.blank
  else
    { Link.blank with jointType := .slideJoint, jointId := 0, d := ![1, 0, 0], m := 2, u := 1 }

/-- The modes of the drawer: it is in torque mode. -/
abbrev heavyDrawerModes : Modes (Fin 2) :=
  initializeModes oneJointTree (fun _ ↦ false) heavyDrawer

/-- The solver before the first step with the drawer. -/
def heavyDrawerState : State (Fin 2) ℚ heavyDrawerModes where
  links := heavyDrawer
  root_w_x_v := 0
  M11 := 0
  M12 := 0
  b1 := 0
  d1 := 0
  ddqGiven := 0
  fextTotal := 0
  tauextTotal := 0
  accelSolverInitialized := false
  ddqGivenCopied := false

theorem isSolution_solveUnknownAccels_iff_heavyDrawer :
    let st₁ := calcPositionAndVelocityFK oneJointTree heavyDrawerState
    let st₂ := calcMassMatrix oneJointTree 0 st₁
    let st₄ := solveUnknownAccels oneJointTree (fun A b ↦ A⁻¹ *ᵥ b)
      (sumExternalForces oneJointTree st₂)
    let root := heavyDrawer 0
    ((IsSolution heavyDrawerModes oneJointTree 0 st₁.links
          (storedRootAccel heavyDrawerModes (st₁.links 0) (st₄.links 0))
          (fun i ↦ (st₄.links i).ddq) ∧
        (heavyDrawerModes.highGainModeJoints = [] →
          (heavyDrawerModes.unknown_rootDof = false →
            root.w ⨯₃ (root.vo + root.w ⨯₃ root.p) = 0) →
          AgreesWithABM heavyDrawerModes oneJointTree 0 heavyDrawer st₄.links)) ↔
      ∀ a ddq, IsSolution heavyDrawerModes oneJointTree 0 st₁.links a ddq →
        ∀ i ∈ heavyDrawerModes.torqueModeJoints,
          ddq i = netTorque heavyDrawerModes oneJointTree 0 st₁.links i) :=
  isSolution_solveUnknownAccels_iff oneJointTree 0 (fun _ ↦ false) heavyDrawerState rfl
    (by decide) rfl (fun A b ↦ A⁻¹ *ᵥ b)
    (fun A b hA ↦ by rw [mulVec_mulVec, mul_nonsing_inv _ hA, one_mulVec])
    (isUnit_det_of_right_inverse (B := Matrix.of fun _ _ ↦ 1 / 2) (by decide +kernel))

/-- The drawer gets its force for its acceleration, in place of half of it. -/
theorem not_isSolution_heavyDrawer :
    let st₁ := calcPositionAndVelocityFK oneJointTree heavyDrawerState
    let st₂ := calcMassMatrix oneJointTree 0 st₁
    let st₄ := solveUnknownAccels oneJointTree (fun A b ↦ A⁻¹ *ᵥ b)
      (sumExternalForces oneJointTree st₂)
    IsUnit st₂.M11.det ∧
      ¬IsSolution heavyDrawerModes oneJointTree 0 st₁.links
        (storedRootAccel heavyDrawerModes (st₁.links 0) (st₄.links 0))
        (fun i ↦ (st₄.links i).ddq) := by
  intro st₁ st₂ st₄
  refine ⟨isUnit_det_of_right_inverse (B := Matrix.of fun _ _ ↦ 1 / 2) (by decide +kernel),
    fun h ↦ ?_⟩
  have htorque := h.torque 1 (by decide)
  have hddq : (st₄.links 1).ddq = 1 := by decide +kernel
  revert htorque
  decide +kernel

end ForwardDynamicsMM

end OpenHRP
