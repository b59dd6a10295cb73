import OpenHRP.Dynamics.MotionUniqueness
import OpenHRP.Dynamics.UnknownAccels

/-!
# Force sensors

A force sensor reads the force that its link gets from its parent. Both dynamics write these
readings. `ForwardDynamicsABM` computes the force from the articulated inertia of the link, for one
sensor after the other. `ForwardDynamicsMM` goes down the tree with the accelerations and adds up
the forces of all links on the way back, as far as they have a sensor above them; it finds the
sensors in a table by links (`initializeSensors`).

The table has room for one sensor of a link. So the second dynamics writes all sensors if and only
if no two of them are on one link, and then the two agree (`storesReactions_iff`).
-/

open Matrix

namespace OpenHRP

open ForwardDynamicsABM (accel axis crossVelocity biasForce externalForce calcABMPhases
  calcABMPhase1 calcABMPhase2 SatisfiesNewtonEuler SolvesMotion Solver)

/-- `ForceSensor`. -/
structure ForceSensor (ι K : Type*) where
  link : ι
  localPos : Vector3 K
  localR : Matrix33 K
  f : Vector3 K
  tau : Vector3 K

variable {ι K : Type*} [DecidableEq ι] [Field K] {n : ℕ}

namespace ForceSensor

/-- The sensor with other stored values. -/
def hold (sensor : ForceSensor ι K) (x : Spatial K) : ForceSensor ι K :=
  { sensor with f := x.1, tau := x.2 }

/-- What a sensor should read when its link needs the force `W` from its parent: the reverse, with
the moment about the position of the sensor, and in its frame. -/
def reading (sensor : ForceSensor ι K) (link : Link K) (W : Spatial K) : Spatial K :=
  let sensorR := link.R * sensor.localR
  let sensorPos := link.p + link.R *ᵥ sensor.localPos
  (-(sensorRᵀ *ᵥ W.1), -(sensorRᵀ *ᵥ (W.2 - cross sensorPos W.1)))

omit [DecidableEq ι] [Field K] in
theorem hold_injective (sensor : ForceSensor ι K) : Function.Injective sensor.hold :=
  fun _ _ h ↦ Prod.ext (congrArg f h :) (congrArg tau h :)

end ForceSensor

/-! ### The articulated-body method -/

namespace ForwardDynamicsABM

/-- `updateForceSensor`, for a sensor on the link. -/
def updateForceSensor (link : Link K) (sensor : ForceSensor ι K) : ForceSensor ι K :=
  let f := -(link.Ivv *ᵥ link.dvo + link.Iwvᵀ *ᵥ link.dw + link.pf)
  let tau := -(link.Iwv *ᵥ link.dvo + link.Iww *ᵥ link.dw + link.ptau)
  let sensorR := link.R * sensor.localR
  let fs := sensorRᵀ *ᵥ f
  let sensorPos := link.p + link.R *ᵥ sensor.localPos
  let ts := sensorRᵀ *ᵥ (tau - cross sensorPos f)
  { sensor with f := fs, tau := ts }

def updateForceSensors (s : Store ι K) (sensors : Fin n → ForceSensor ι K) :
    Fin n → ForceSensor ι K := fun i ↦
  updateForceSensor (s (sensors i).link) (sensors i)

theorem pose_calcABMPhase2Link (isRoot : Bool) (children : List (Link K)) (link : Link K) :
    (calcABMPhase2Link isRoot children link).R = link.R ∧
      (calcABMPhase2Link isRoot children link).p = link.p := by
  rw [calcABMPhase2Link_eq]
  dsimp only
  split_ifs <;> exact ⟨rfl, rfl⟩

theorem pose_calcABMPhase2 (t : LinkTree ι) (s : Store ι K) (i : ι) :
    (calcABMPhase2 t s i).R = (s i).R ∧ (calcABMPhase2 t s i).p = (s i).p :=
  ⟨sweep_field Link.R (fun _ _ ↦ (pose_calcABMPhase2Link _ _ _).1) _ _ i,
    sweep_field Link.p (fun _ _ ↦ (pose_calcABMPhase2Link _ _ _).2) _ _ i⟩

/-- Phase 3 sets accelerations alone. -/
theorem atRest_calcABMPhase3 (t : LinkTree ι) (solve : Solver K) (s : Store ι K) (i : ι) :
    atRest (calcABMPhase3 t solve s i) = atRest (s i) := by
  refine sweep_field atRest (fun j s' ↦ ?_) _ _ i
  cases (t.parent j).map s' with
  | none =>
    show atRest (calcABMPhase3Root solve (s' j)) = _
    rw [calcABMPhase3Root]
    split_ifs <;> rfl
  | some parent =>
    show atRest (calcABMPhase3Joint parent (s' j)) = _
    rw [calcABMPhase3Joint]
    split_ifs <;> rfl

end ForwardDynamicsABM

/-! ### The mass-matrix method -/

namespace ForwardDynamicsMM

/-- `ForceSensorInfo`. -/
structure ForceSensorInfo (n : ℕ) where
  sensor : Option (Fin n)
  hasSensorsAbove : Bool

/-- One turn of the loop of `initializeSensors` over the sensors. -/
def enterSensor (link : Fin n → ι) (info : ι → ForceSensorInfo n) (i : Fin n) :
    ι → ForceSensorInfo n :=
  Function.update info (link i) { info (link i) with sensor := some i }

/-- `updateForceSensorInfo`, for the links of a sibling chain. -/
def updateForceSensorInfo : LinkPtr ι → Bool → (ι → ForceSensorInfo n) → ι → ForceSensorInfo n
  | .null, _, forceSensorInfo => forceSensorInfo
  | .link l child sibling, hasSensorsAbove, forceSensorInfo =>
    let info := forceSensorInfo l
    let above := hasSensorsAbove || info.sensor.isSome
    let forceSensorInfo := Function.update forceSensorInfo l { info with hasSensorsAbove := above }
    updateForceSensorInfo sibling hasSensorsAbove
      (updateForceSensorInfo child above forceSensorInfo)

/-- `initializeSensors`, for sensors on these links. -/
def initializeSensors (t : LinkTree ι) (sensorsEnabled : Bool) (link : Fin n → ι) :
    ι → ForceSensorInfo n :=
  let forceSensorInfo := fun _ ↦ ⟨none, false⟩
  if sensorsEnabled then
    updateForceSensorInfo (.link t.root t.child .null) false
      ((List.finRange n).foldl (enterSensor link) forceSensorInfo)
  else forceSensorInfo

/-- What the recursion changes: the links and the sensors. -/
structure Walk (ι K : Type*) (n : ℕ) where
  links : Store ι K
  sensors : Fin n → ForceSensor ι K

/-- The accelerations of a link from those of its parent. -/
def accelFK (parent : Option (Link K)) (link : Link K) : Link K :=
  parent.elim link fun parent ↦
    { link with
      dvo := parent.dvo + link.cv + link.ddq • link.sv
      dw := parent.dw + link.cw + link.ddq • link.sw }

/-- Gravity, external and inertial forces of a link with a sensor above it. -/
def addForces (g : Vector3 K) (link : Link K) (out : Spatial K) : Spatial K :=
  let fg := (-link.m) • g
  let tg := cross link.wc fg
  out - (fg, tg) - (link.fext, link.tauext) +
    (link.m • link.dvo + link.Iwvᵀ *ᵥ link.dw, link.Iwv *ᵥ link.dvo + link.Iww *ᵥ link.dw)

/-- The writing of a sensor. -/
def storeForce (link : Link K) (out : Spatial K) (sensor : ForceSensor ι K) : ForceSensor ι K :=
  let sensorR := link.R * sensor.localR
  let sensorPos := link.p + link.R *ᵥ sensor.localPos
  let f := -out.1
  { sensor with f := sensorRᵀ *ᵥ f, tau := sensorRᵀ *ᵥ (-out.2 - cross sensorPos f) }

/-- The writing of the sensor that the table has for the link. -/
def storeSensor (info : ForceSensorInfo n) (link : Link K) (out : Spatial K)
    (sensors : Fin n → ForceSensor ι K) : Fin n → ForceSensor ι K :=
  info.sensor.elim sensors fun i ↦ Function.update sensors i (storeForce link out (sensors i))

section Recursion

variable (g : Vector3 K)

/-- What follows the loop over the children. `CALC_ALL_JOINT_TORQUES` is not set. -/
def finishLink (info : ForceSensorInfo n) (link : Link K) (out : Spatial K)
    (sensors : Fin n → ForceSensor ι K) : Spatial K × (Fin n → ForceSensor ι K) :=
  if info.hasSensorsAbove then
    let out := addForces g link out
    (out, storeSensor info link out sensors)
  else (out, sensors)

variable (forceSensorInfo : ι → ForceSensorInfo n)

/-- The recursion over a sibling chain whose links have the parent `parent`, and the force on all of
them. -/
def calcAccelFKChildren : Option ι → LinkPtr ι → Walk ι K n → Walk ι K n × Spatial K
  | _, .null, st => (st, 0)
  | parent, .link l child sibling, st =>
    let links := Function.update st.links l (accelFK (parent.map st.links) (st.links l))
    let below := calcAccelFKChildren (some l) child { st with links := links }
    let link := below.1.links l
    let out := (link.pf, link.ptau) + below.2
    let done := finishLink g (forceSensorInfo l) link out below.1.sensors
    let next := calcAccelFKChildren parent sibling ⟨below.1.links, done.2⟩
    (next.1, done.1 + next.2)

/-- `calcAccelFKandForceSensorValues`, of the root link. -/
def calcAccelFKandForceSensorValues (t : LinkTree ι) (st : Walk ι K n) : Walk ι K n :=
  (calcAccelFKChildren g forceSensorInfo none (.link t.root t.child .null) st).1

end Recursion

/-! ### The table of the sensors -/

section Table

omit [DecidableEq ι] in
/-- The links reached from the root. -/
theorem links_rootPtr (t : LinkTree ι) : (LinkPtr.link t.root t.child .null).links = t.links := by
  rw [LinkPtr.links_link, LinkPtr.links_null, List.append_nil]
  rfl

/-- A link met from the root is met with its own `child` pointer. -/
theorem childPtr_of_meets_rootPtr {t : LinkTree ι} {l : ι} {c sib : LinkPtr ι}
    (h : (LinkPtr.link t.root t.child .null).Meets (.link l c sib)) : t.childPtr l = c := by
  rcases h with h | h | h
  · obtain ⟨rfl, rfl, -⟩ := LinkPtr.link.inj h
    exact if_pos rfl
  · exact t.childPtr_of_meets h
  · exact absurd h (by simp [LinkPtr.Meets])

variable {link : Fin n → ι} {info : ι → ForceSensorInfo n} {k : Fin n}

/-- A sensor is entered at its link only. -/
theorem link_eq_of_foldl_enterSensor {l : List (Fin n)}
    (h : ∀ i k, (info i).sensor = some k → link k = i) {i : ι}
    (hk : (l.foldl (enterSensor link) info i).sensor = some k) : link k = i := by
  induction l generalizing info with
  | nil => exact h i k hk
  | cons a l ih =>
    refine ih (fun j m hm ↦ ?_) hk
    obtain rfl | hne := eq_or_ne j (link a)
    · rw [enterSensor, Function.update_self] at hm
      exact congrArg link (Option.some.inj hm).symm
    · rw [enterSensor, Function.update_of_ne hne] at hm
      exact h j m hm

/-- There is a sensor in the table where there is one. -/
theorem exists_foldl_enterSensor {l : List (Fin n)} {i : ι}
    (h : (∃ m, (info i).sensor = some m) ∨ ∃ k ∈ l, link k = i) :
    ∃ m, (l.foldl (enterSensor link) info i).sensor = some m := by
  induction l generalizing info with
  | nil => exact h.resolve_right fun ⟨k, hk, _⟩ ↦ List.not_mem_nil hk
  | cons a l ih =>
    refine ih ?_
    obtain rfl | hne := eq_or_ne i (link a)
    · exact .inl ⟨a, by rw [enterSensor, Function.update_self]⟩
    · rw [enterSensor, Function.update_of_ne hne]
      refine h.imp_right fun ⟨k, hk, hki⟩ ↦ ⟨k, (List.mem_cons.1 hk).resolve_left ?_, hki⟩
      rintro rfl
      exact hne hki.symm

theorem updateForceSensorInfo_sensor (ptr : LinkPtr ι) (above : Bool)
    (info : ι → ForceSensorInfo n) (i : ι) :
    (updateForceSensorInfo ptr above info i).sensor = (info i).sensor := by
  induction ptr generalizing above info with
  | null => rfl
  | link l c s ihc ihs =>
    rw [updateForceSensorInfo, ihs, ihc]
    obtain rfl | hne := eq_or_ne i l
    · rw [Function.update_self]
    · rw [Function.update_of_ne hne]

variable {ptr : LinkPtr ι}

theorem updateForceSensorInfo_of_notMem {i : ι} (hi : i ∉ ptr.links) (above : Bool)
    (info : ι → ForceSensorInfo n) : updateForceSensorInfo ptr above info i = info i := by
  induction ptr generalizing above info with
  | null => rfl
  | link l c s ihc ihs =>
    simp only [LinkPtr.links_link, List.mem_cons, List.mem_append, not_or] at hi
    rw [updateForceSensorInfo, ihs hi.2.2, ihc hi.2.1, Function.update_of_ne hi.1]

/-- Below a sensor the flag is set. -/
theorem hasSensorsAbove_of_above (hnd : ptr.links.Nodup) (info : ι → ForceSensorInfo n) :
    ∀ i ∈ ptr.links, (updateForceSensorInfo ptr true info i).hasSensorsAbove = true := by
  induction ptr generalizing info with
  | null => exact fun i hi ↦ absurd hi List.not_mem_nil
  | link l c s ihc ihs =>
    simp only [LinkPtr.links_link, List.nodup_cons, List.mem_append, not_or,
      List.nodup_append] at hnd
    obtain ⟨⟨hlc, hls⟩, hc, hs, hcs⟩ := hnd
    intro i hi
    rw [updateForceSensorInfo]
    rcases List.mem_cons.1 hi with rfl | hi
    · rw [updateForceSensorInfo_of_notMem hls, updateForceSensorInfo_of_notMem hlc,
        Function.update_self]
      rfl
    · rcases List.mem_append.1 hi with hi | hi
      · rw [updateForceSensorInfo_of_notMem fun his ↦ hcs i hi i his rfl]
        exact ihc hc _ i hi
      · exact ihs hs _ i hi

/-- At a link with a sensor and below it the flag is set. -/
theorem hasSensorsAbove_of_sensor (hnd : ptr.links.Nodup) {l : ι} {c s : LinkPtr ι}
    (hmeets : ptr.Meets (.link l c s)) (hl : (info l).sensor.isSome = true) (above : Bool) :
    ∀ i ∈ l :: c.links, (updateForceSensorInfo ptr above info i).hasSensorsAbove = true := by
  induction ptr generalizing above info with
  | null => exact absurd hmeets (by simp [LinkPtr.Meets])
  | link l' c' s' ihc ihs =>
    simp only [LinkPtr.links_link, List.nodup_cons, List.mem_append, not_or,
      List.nodup_append] at hnd
    obtain ⟨⟨hlc, hls⟩, hc, hs, hcs⟩ := hnd
    intro i hi
    rw [updateForceSensorInfo]
    rcases hmeets with heq | hmeets | hmeets
    · obtain ⟨rfl, rfl, rfl⟩ := LinkPtr.link.inj heq
      rw [hl, Bool.or_true]
      rcases List.mem_cons.1 hi with rfl | hi
      · rw [updateForceSensorInfo_of_notMem hls, updateForceSensorInfo_of_notMem hlc,
          Function.update_self]
      · rw [updateForceSensorInfo_of_notMem fun his ↦ hcs i hi i his rfl]
        exact hasSensorsAbove_of_above hc _ i hi
    · have hne : l ≠ l' := fun e ↦ hlc (e ▸ hmeets.mem)
      have hic : i ∈ c'.links := by
        rcases List.mem_cons.1 hi with rfl | hi
        · exact hmeets.mem
        · exact hmeets.below.1.sublist.subset hi
      rw [updateForceSensorInfo_of_notMem fun his ↦ hcs i hic i his rfl]
      exact ihc hc hmeets (by rwa [Function.update_of_ne hne]) _ i hi
    · have hne : l ≠ l' := fun e ↦ hls (e ▸ hmeets.mem)
      refine ihs hs hmeets ?_ _ i hi
      rwa [updateForceSensorInfo_sensor, Function.update_of_ne hne]

/-- The table has a sensor at its link only. -/
theorem link_eq_of_initializeSensors {t : LinkTree ι} {i : ι}
    (h : (initializeSensors t true link i).sensor = some k) : link k = i := by
  rw [initializeSensors, if_pos rfl, updateForceSensorInfo_sensor] at h
  exact link_eq_of_foldl_enterSensor (fun _ _ h ↦ absurd h (by simp)) h

/-- At every link with sensors, the table has one of them. -/
theorem exists_initializeSensors (t : LinkTree ι) (link : Fin n → ι) (k : Fin n) :
    ∃ m, (initializeSensors t true link (link k)).sensor = some m := by
  rw [initializeSensors, if_pos rfl, updateForceSensorInfo_sensor]
  exact exists_foldl_enterSensor (.inr ⟨k, List.mem_finRange k, rfl⟩)

/-- In the subtree of a sensor in the table the flag is set. -/
theorem hasSensorsAbove_initializeSensors {t : LinkTree ι} {i : ι} (hi : i ∈ t.links)
    (h : (initializeSensors t true link i).sensor = some k) :
    ∀ j ∈ t.below i, (initializeSensors t true link j).hasSensorsAbove = true := by
  rw [initializeSensors, if_pos rfl] at h ⊢
  rw [updateForceSensorInfo_sensor] at h
  obtain ⟨c, sib, hmeets⟩ : ∃ c sib,
      (LinkPtr.link t.root t.child .null).Meets (.link i c sib) :=
    LinkPtr.exists_meets_of_mem_links ((links_rootPtr t).symm ▸ hi)
  have hbelow : t.below i = i :: c.links := by
    rw [LinkTree.below, childPtr_of_meets_rootPtr hmeets]
  rw [hbelow]
  exact hasSensorsAbove_of_sensor ((links_rootPtr t).symm ▸ t.links_nodup) hmeets
    (Option.isSome_iff_exists.2 ⟨k, h⟩) false

end Table

/-! ### What the recursion leaves -/

/-- The accelerations of all links from those of the root and of the joints. -/
def spreadAccel (t : LinkTree ι) (s : Store ι K) : Store ι K :=
  t.forwardLoop (fun _ ↦ accelFK) s

/-- The recursion writes the sensor `k` when it is at the link. -/
def ForceSensorInfo.Writes (info : ForceSensorInfo n) (k : Fin n) : Prop :=
  info.sensor = some k ∧ info.hasSensorsAbove = true

/-- What a link adds to the forces on the links above it. -/
def ownContribution (g : Vector3 K) (forceSensorInfo : ι → ForceSensorInfo n) (F : Store ι K)
    (i : ι) : Spatial K :=
  if (forceSensorInfo i).hasSensorsAbove then addForces g (F i) (biasForce (F i))
  else biasForce (F i)

section Walk

variable {g : Vector3 K} {forceSensorInfo : ι → ForceSensorInfo n} {t : LinkTree ι}

section

omit [DecidableEq ι]

theorem addForces_add (link : Link K) (out out' : Spatial K) :
    addForces g link (out + out') = addForces g link out + out' := by
  simp only [addForces]
  abel

theorem finishLink_fst (F : Store ι K) (i : ι) (out : Spatial K)
    (sensors : Fin n → ForceSensor ι K) :
    (finishLink g (forceSensorInfo i) (F i) (biasForce (F i) + out) sensors).1 =
      ownContribution g forceSensorInfo F i + out := by
  rw [finishLink, ownContribution]
  split_ifs
  · exact addForces_add _ _ _
  · rfl

theorem finishLink_snd_of_writes {info : ForceSensorInfo n} {k : Fin n} (h : info.Writes k)
    (link : Link K) (out : Spatial K) (sensors : Fin n → ForceSensor ι K) :
    (finishLink g info link out sensors).2 k =
      storeForce link (finishLink g info link out sensors).1 (sensors k) := by
  rw [finishLink, if_pos h.2]
  show storeSensor info link _ sensors k = _
  rw [storeSensor, h.1, Option.elim_some, Function.update_self]

theorem finishLink_snd_of_not_writes {info : ForceSensorInfo n} {k : Fin n} (h : ¬info.Writes k)
    (link : Link K) (out : Spatial K) (sensors : Fin n → ForceSensor ι K) :
    (finishLink g info link out sensors).2 k = sensors k := by
  rw [finishLink]
  split_ifs with habove
  · show storeSensor info link _ sensors k = _
    rw [storeSensor]
    cases hsensor : info.sensor with
    | none => rfl
    | some m =>
      exact Function.update_of_ne
        (fun e ↦ h ⟨hsensor.trans (congrArg some e.symm), habove⟩) _ _
  · rfl

end

/-- What the recursion over a sibling chain leaves, for links that end up as `F`. -/
structure WalkResult (t : LinkTree ι) (g : Vector3 K) (forceSensorInfo : ι → ForceSensorInfo n)
    (F : Store ι K) (ptr : LinkPtr ι) (st : Walk ι K n) (r : Walk ι K n × Spatial K) : Prop where
  links : ∀ i ∈ ptr.links, r.1.links i = F i
  outside : ∀ i, i ∉ ptr.links → r.1.links i = st.links i
  out : r.2 = ptr.sum (ownContribution g forceSensorInfo F)
  written : ∀ i ∈ ptr.links, ∀ k, (forceSensorInfo i).Writes k → r.1.sensors k =
    storeForce (F i) (t.subtreeSum (ownContribution g forceSensorInfo F) i) (st.sensors k)
  kept : ∀ k, (∀ i ∈ ptr.links, ¬(forceSensorInfo i).Writes k) → r.1.sensors k = st.sensors k

theorem walkResult_calcAccelFKChildren
    (hone : ∀ i j k, (forceSensorInfo i).Writes k → (forceSensorInfo j).Writes k → i = j)
    {s F : Store ι K} (hF : ∀ i ∈ t.links, F i = accelFK ((t.parent i).map F) (s i))
    {ptr : LinkPtr ι} (hptr : ∀ l c sib, ptr.Meets (.link l c sib) → l ∈ t.links ∧ t.childPtr l = c)
    {parent : Option ι} (hparent : ∀ i ∈ ptr.siblings, t.parent i = parent)
    (hnd : ptr.links.Nodup) (hup : ∀ p, parent = some p → p ∉ ptr.links) (st : Walk ι K n)
    (hs : ∀ i ∈ ptr.links, st.links i = s i) (habove : parent.map st.links = parent.map F) :
    WalkResult t g forceSensorInfo F ptr st
      (calcAccelFKChildren g forceSensorInfo parent ptr st) := by
  induction ptr generalizing parent st with
  | null => exact ⟨by simp, fun _ _ ↦ rfl, rfl, by simp, fun _ _ ↦ rfl⟩
  | link l c sib ihc ihs =>
    simp only [LinkPtr.links_link, List.nodup_cons, List.mem_append, not_or,
      List.nodup_append] at hnd
    obtain ⟨⟨hlc, hls⟩, hc, hsib, hcs⟩ := hnd
    obtain ⟨hlmem, hchild⟩ := hptr l c sib (.inl rfl)
    have hupl (p : ι) (hp : parent = some p) : p ≠ l ∧ p ∉ c.links ∧ p ∉ sib.links := by
      simpa [not_or] using hup p hp
    -- the link itself
    set links := Function.update st.links l (accelFK (parent.map st.links) (st.links l)) with hlinks
    have hl : links l = F l := by
      rw [hlinks, Function.update_self, habove, hs l List.mem_cons_self, hF l hlmem,
        hparent l List.mem_cons_self]
    -- the links below it
    have hbelow := ihc (fun l' c' s' h ↦ hptr l' c' s' (.inr (.inl h)))
      (fun i hi ↦ t.mem_children.1 (by rwa [LinkTree.children, hchild])) hc
      (fun p hp ↦ Option.some.inj hp ▸ hlc) { st with links := links }
      (fun i hi ↦ by
        have hne : i ≠ l := fun e ↦ hlc (e ▸ hi)
        show links i = s i
        rw [hlinks, Function.update_of_ne hne]
        exact hs i (by simp [hi]))
      (congrArg some hl)
    set below := calcAccelFKChildren g forceSensorInfo (some l) c { st with links := links }
      with hbelowdef
    have hbl : below.1.links l = F l := (hbelow.outside l hlc).trans hl
    set done := finishLink g (forceSensorInfo l) (F l) (biasForce (F l) + below.2) below.1.sensors
      with hdone
    have hout : done.1 = t.subtreeSum (ownContribution g forceSensorInfo F) l := by
      rw [hdone, finishLink_fst, hbelow.out, LinkTree.subtreeSum, hchild]
    have hkeep (i : ι) (hi : i ≠ l) (hic : i ∉ c.links) : below.1.links i = st.links i :=
      (hbelow.outside i hic).trans (Function.update_of_ne hi _ _)
    -- the siblings
    have hnext := ihs (fun l' c' s' h ↦ hptr l' c' s' (.inr (.inr h)))
      (fun i hi ↦ hparent i (List.mem_cons_of_mem _ hi)) hsib (fun p hp ↦ (hupl p hp).2.2)
      ⟨below.1.links, done.2⟩
      (fun i hi ↦ (hkeep i (fun e ↦ hls (e ▸ hi)) fun hic ↦ hcs i hic i hi rfl).trans
        (hs i (by simp [hi])))
      ((Option.map_congr fun p hp ↦ hkeep p (hupl p hp).1 (hupl p hp).2.1).trans habove)
    set next := calcAccelFKChildren g forceSensorInfo parent sib ⟨below.1.links, done.2⟩
      with hnextdef
    have hr : calcAccelFKChildren g forceSensorInfo parent (.link l c sib) st =
        (next.1, done.1 + next.2) := by
      rw [hnextdef, hdone, ← hbl, biasForce]
      rfl
    rw [hr]
    refine ⟨fun i hi ↦ ?_, fun i hi ↦ ?_, ?_, fun i hi k hk ↦ ?_, fun k hk ↦ ?_⟩
    · simp only [LinkPtr.links_link, List.mem_cons, List.mem_append] at hi
      rcases hi with rfl | hi | hi
      · exact (hnext.outside i hls).trans hbl
      · exact (hnext.outside i fun his ↦ hcs i hi i his rfl).trans (hbelow.links i hi)
      · exact hnext.links i hi
    · simp only [LinkPtr.links_link, List.mem_cons, List.mem_append, not_or] at hi
      exact (hnext.outside i hi.2.2).trans (hkeep i hi.1 hi.2.1)
    · show done.1 + next.2 = _
      rw [hout, hnext.out, LinkTree.subtreeSum, hchild, LinkPtr.sum]
    · have hother (j : ι) (hj : j ≠ i) : ¬(forceSensorInfo j).Writes k := fun h ↦
        hj (hone j i k h hk)
      simp only [LinkPtr.links_link, List.mem_cons, List.mem_append] at hi
      rcases hi with rfl | hi | hi
      · rw [hnext.kept k fun j hj ↦ hother j fun e ↦ hls (e ▸ hj), ← hout, hdone]
        show done.2 k = _
        rw [hdone, finishLink_snd_of_writes hk,
          hbelow.kept k fun j hj ↦ hother j fun e ↦ hlc (e ▸ hj)]
      · rw [hnext.kept k fun j hj ↦ hother j fun e ↦ hcs i hi j hj e.symm]
        show done.2 k = _
        rw [hdone, finishLink_snd_of_not_writes (hother l fun e ↦ hlc (e ▸ hi))]
        exact hbelow.written i hi k hk
      · rw [hnext.written i hi k hk]
        show storeForce (F i) _ (done.2 k) = _
        rw [hdone, finishLink_snd_of_not_writes (hother l fun e ↦ hls (e ▸ hi)),
          hbelow.kept k fun j hj ↦ hother j fun e ↦ hcs j hj i hi e]
    · rw [hnext.kept k fun i hi ↦ hk i (by simp [hi])]
      show done.2 k = _
      rw [hdone, finishLink_snd_of_not_writes (hk l (by simp)),
        hbelow.kept k fun i hi ↦ hk i (by simp [hi])]

variable (t) in
theorem walkResult_calcAccelFKandForceSensorValues
    (hone : ∀ i j k, (forceSensorInfo i).Writes k → (forceSensorInfo j).Writes k → i = j)
    (st : Walk ι K n) :
    let r := calcAccelFKChildren g forceSensorInfo none (.link t.root t.child .null) st
    WalkResult t g forceSensorInfo (spreadAccel t st.links) (.link t.root t.child .null) st r := by
  refine walkResult_calcAccelFKChildren hone (s := st.links) (fun i hi ↦ t.forwardLoop_eq _ _ hi)
    (fun l c sib h ↦ ⟨links_rootPtr t ▸ h.mem, childPtr_of_meets_rootPtr h⟩) (fun i hi ↦ ?_)
    ((links_rootPtr t).symm ▸ t.links_nodup) (fun _ hp ↦ absurd hp (by simp)) st
    (fun _ _ ↦ rfl) rfl
  · obtain rfl : i = t.root := by simpa using hi
    exact t.parent_root

omit [DecidableEq ι] in
theorem atRest_accelFK (parent : Option (Link K)) (link : Link K) :
    atRest (accelFK parent link) = atRest link := by
  cases parent <;> rfl

theorem atRest_spreadAccel (t : LinkTree ι) (s : Store ι K) (i : ι) :
    atRest (spreadAccel t s i) = atRest (s i) :=
  sweep_field atRest (fun _ _ ↦ atRest_accelFK _ _) _ _ i

theorem ddq_spreadAccel (t : LinkTree ι) (s : Store ι K) (i : ι) :
    (spreadAccel t s i).ddq = (s i).ddq :=
  sweep_field Link.ddq (fun j s' ↦ by cases (t.parent j).map s' <;> rfl) _ _ i

end Walk

/-! ### What a sensor gets -/

section

omit [DecidableEq ι]

theorem storeForce_eq (link : Link K) (out : Spatial K) (sensor : ForceSensor ι K) :
    storeForce link out sensor = sensor.hold (sensor.reading link out) := by
  simp only [storeForce, ForceSensor.hold, ForceSensor.reading, mulVec_neg, map_neg, mulVec_sub,
    sub_neg_eq_add, neg_sub, neg_add_eq_sub]

theorem updateForceSensor_eq (link : Link K) (sensor : ForceSensor ι K) :
    ForwardDynamicsABM.updateForceSensor link sensor =
      sensor.hold (sensor.reading link
        (ForwardDynamicsABM.inertiaMap link (accel link) + biasForce link)) :=
  storeForce_eq link (ForwardDynamicsABM.inertiaMap link (accel link) + biasForce link) sensor

/-- The forces on a link with a sensor above it are those of the equations of motion. -/
theorem addForces_eq (g : Vector3 K) {link link₀ : Link K} (h : atRest link = atRest link₀) :
    addForces g link (biasForce link) =
      (ForwardDynamicsABM.inertia (addGravity g link₀)).toLin (accel link) +
        biasForce (addGravity g link₀) - externalForce (addGravity g link₀) := by
  have htoLin : (ForwardDynamicsABM.inertia (addGravity g link₀)).toLin (accel link) =
      (link.m • link.dvo + link.Iwvᵀ *ᵥ link.dw, link.Iwv *ᵥ link.dvo + link.Iww *ᵥ link.dw) := by
    rw [inertia_addGravity, eq_of_atRest_eq h]
    show ((link.m • (1 : Matrix33 K)) *ᵥ link.dvo + _, _) = _
    rw [smul_mulVec, one_mulVec]
    rfl
  have hbias : biasForce (addGravity g link₀) =
      biasForce link - ((-link.m) • g, cross link.wc ((-link.m) • g)) := by
    rw [eq_of_atRest_eq h]
    rfl
  have hext : externalForce (addGravity g link₀) = (link.fext, link.tauext) := by
    rw [eq_of_atRest_eq h]
    rfl
  rw [htoLin, hbias, hext, addForces]
  abel

end

section Main

variable [CMath K] {modes : Modes ι}

/-- The force that a link needs from its parent, for the accelerations in the links `s`. -/
def reaction (t : LinkTree ι) (g : Vector3 K) (st : State ι K modes) (s : Store ι K) :
    ι → Spatial K :=
  ForwardDynamicsABM.linkForce t (calcABMPhase1 t g (startLinks t st)) (spreadAccel t s)

/-- Both dynamics store in every sensor what it should read: the articulated-body method from the
links of `st`, and the mass-matrix method from `st` and from the accelerations in the links `s`. -/
def StoresReactions (t : LinkTree ι) (g : Vector3 K) (solve : Solver K) (st : State ι K modes)
    (s : Store ι K) (sensors : Fin n → ForceSensor ι K) : Prop :=
  let links := calcABMPhases t g solve (startLinks t st)
  let info := initializeSensors t true fun k ↦ (sensors k).link
  ∀ k, let link := (sensors k).link
    let expected := (sensors k).hold ((sensors k).reading (s link) (reaction t g st s link))
    ForwardDynamicsABM.updateForceSensors links sensors k = expected ∧
      (calcAccelFKandForceSensorValues g info t ⟨s, sensors⟩).sensors k = expected

/-- The links `s` are those that the mass-matrix method has placed, with accelerations that solve
the equations of motion. -/
structure HasMotion (t : LinkTree ι) (g : Vector3 K) (st : State ι K modes) (s : Store ι K) :
    Prop where
  rest : ∀ i ∈ t.links, atRest (s i) = atRest ((calcPositionAndVelocityFK t st).links i)
  motion : SatisfiesNewtonEuler t (calcABMPhase1 t g (startLinks t st)) (spreadAccel t s)
  fixed : (st.links t.root).jointType ≠ .freeJoint → accel (s t.root) = 0

variable {t : LinkTree ι} {g : Vector3 K} {solve : Solver K} {st : State ι K modes} {s : Store ι K}

theorem HasMotion.atRest_calcABMPhase1 (h : HasMotion t g st s) : ∀ i ∈ t.links,
    atRest (calcABMPhase1 t g (startLinks t st) i) = addGravity g (atRest (s i)) := fun i hi ↦ by
  rw [calcABMPhase1_startLinks t g st i hi, h.rest i hi]
  rfl

omit [CMath K] in
theorem startLinks_jointType (st : State ι K modes) (i : ι) :
    (startLinks t st i).jointType = (st.links i).jointType :=
  (congrArg Link.jointType (dropPosition_startLinks st i) :)

theorem HasMotion.solvesMotion (h : HasMotion t g st s) :
    SolvesMotion t (calcABMPhase1 t g (startLinks t st)) (spreadAccel t s) := by
  have hspread : ∀ i ∈ t.links,
      spreadAccel t s i = accelFK ((t.parent i).map (spreadAccel t s)) (s i) := fun i hi ↦
    t.forwardLoop_eq _ _ hi
  refine ⟨h.motion, fun p c hpc ↦ ?_, fun hfree ↦ ?_⟩
  · have hc := (t.parent_mem hpc).2
    have hrest := h.atRest_calcABMPhase1 c hc
    have hcross : crossVelocity (calcABMPhase1 t g (startLinks t st) c) = crossVelocity (s c) :=
      (congrArg crossVelocity hrest :)
    have haxis : axis (calcABMPhase1 t g (startLinks t st) c) = axis (s c) :=
      (congrArg axis hrest :)
    rw [ddq_spreadAccel, hspread c hc, hpc, hcross, haxis]
    rfl
  · rw [hspread _ t.root_mem, t.parent_root]
    refine h.fixed fun e ↦ hfree ?_
    rw [ForwardDynamicsABM.calcABMPhase1_jointType, startLinks_jointType, e]

/-- What the links above a sensor get from below is what the equations of motion ask for. -/
theorem HasMotion.subtreeSum_eq (h : HasMotion t g st s) {info : ι → ForceSensorInfo n} {i : ι}
    (hi : i ∈ t.links) (habove : ∀ j ∈ t.below i, (info j).hasSensorsAbove = true) :
    t.subtreeSum (ownContribution g info (spreadAccel t s)) i = reaction t g st s i := by
  refine t.subtreeSum_congr fun j hj ↦ ?_
  have hjmem := (t.below_sublist hi).subset hj
  have hrest : atRest (spreadAccel t s j) =
      atRest ((calcPositionAndVelocityFK t st).links j) :=
    (atRest_spreadAccel t s j).trans (h.rest j hjmem)
  rw [ownContribution, if_pos (habove j hj), addForces_eq g hrest, ForwardDynamicsABM.ownForce,
    calcABMPhase1_startLinks t g st j hjmem]

/-! The readings. -/

omit [DecidableEq ι] [CMath K] in
theorem reading_congr {link link' : Link K} (hR : link.R = link'.R) (hp : link.p = link'.p)
    (sensor : ForceSensor ι K) (W : Spatial K) :
    sensor.reading link W = sensor.reading link' W := by
  rw [ForceSensor.reading, ForceSensor.reading, hR, hp]

omit [Field K] [CMath K] in
theorem writes_unique {link : Fin n → ι} (i j : ι) (k : Fin n)
    (hi : (initializeSensors t true link i).Writes k)
    (hj : (initializeSensors t true link j).Writes k) : i = j :=
  (link_eq_of_initializeSensors hi.1).symm.trans (link_eq_of_initializeSensors hj.1)

section Sensors

variable (sensors : Fin n → ForceSensor ι K)

/-- A sensor in the table gets the reaction of its link. -/
theorem HasMotion.sensors_of_entered (h : HasMotion t g st s) {k : Fin n}
    (hmem : (sensors k).link ∈ t.links)
    (hk : (initializeSensors t true (fun k ↦ (sensors k).link) (sensors k).link).sensor = some k) :
    let info := initializeSensors t true fun k ↦ (sensors k).link
    let link := (sensors k).link
    (calcAccelFKandForceSensorValues g info t ⟨s, sensors⟩).sensors k =
      (sensors k).hold ((sensors k).reading (s link) (reaction t g st s link)) := by
  intro info link
  have habove := hasSensorsAbove_initializeSensors hmem hk
  have hwrites : (info link).Writes k := ⟨hk, habove _ List.mem_cons_self⟩
  have hrest := atRest_spreadAccel t s link
  have hR : (spreadAccel t s link).R = (s link).R := (congrArg Link.R hrest :)
  have hp : (spreadAccel t s link).p = (s link).p := (congrArg Link.p hrest :)
  have hresult := (walkResult_calcAccelFKandForceSensorValues t (g := g) writes_unique
    ⟨s, sensors⟩).written link ((links_rootPtr t).symm ▸ hmem) k hwrites
  rw [h.subtreeSum_eq hmem habove, storeForce_eq, reading_congr hR hp] at hresult
  exact hresult

omit [CMath K] in
/-- A sensor that is not in the table keeps what it has. -/
theorem sensors_of_not_entered (s : Store ι K) {k : Fin n}
    (hk : (initializeSensors t true (fun k ↦ (sensors k).link) (sensors k).link).sensor ≠
      some k) :
    let info := initializeSensors t true fun k ↦ (sensors k).link
    (calcAccelFKandForceSensorValues g info t ⟨s, sensors⟩).sensors k = sensors k := by
  refine (walkResult_calcAccelFKandForceSensorValues t (g := g) writes_unique ⟨s, sensors⟩).kept k
    fun i _ hi ↦ hk ?_
  have hlink : (sensors k).link = i := link_eq_of_initializeSensors hi.1
  rw [hlink]
  exact hi.1

variable (hsolve : ∀ A b, IsUnit A.det → A *ᵥ solve A b = b)
  (hI : ∀ i ∈ t.links, (startLinks t st i).I.IsSymm)
  (hdd : ∀ i ∈ t.links, i ≠ t.root → (startLinks t st i).jointType ≠ .fixedJoint →
    (calcABMPhase2 t (calcABMPhase1 t g (startLinks t st)) i).dd ≠ 0)
  (hroot : (startLinks t st t.root).jointType = .freeJoint →
    IsUnit (ForwardDynamicsABM.articulatedInertia
      (calcABMPhase2 t (calcABMPhase1 t g (startLinks t st)) t.root)).det)

include hsolve hI hdd hroot

/-- The articulated-body method gives every sensor the reaction of its link. -/
theorem HasMotion.updateForceSensors_eq (h : HasMotion t g st s) {k : Fin n}
    (hmem : (sensors k).link ∈ t.links) :
    let link := (sensors k).link
    ForwardDynamicsABM.updateForceSensors (calcABMPhases t g solve (startLinks t st)) sensors k =
      (sensors k).hold ((sensors k).reading (s link) (reaction t g st s link)) := by
  intro link
  set s₀ := startLinks t st with hs₀
  set s₁ := calcABMPhase1 t g s₀ with hs₁
  set s₂ := calcABMPhase2 t s₁ with hs₂
  set s₃ := calcABMPhases t g solve s₀ with hs₃
  have haccel := h.solvesMotion.accel_eq hI hdd hsolve hroot
  have hforce : reaction t g st s link =
      ForwardDynamicsABM.inertiaMap (s₂ link) (accel (s₃ link)) + biasForce (s₂ link) := by
    refine Eq.trans (t.subtreeSum_congr fun j hj ↦ ?_)
      (ForwardDynamicsABM.linkForce_calcABMPhases t g solve s₀ link hmem)
    rw [ForwardDynamicsABM.ownForce, haccel j ((t.below_sublist hmem).subset hj)]
    rfl
  have hrest : atRest (s₃ link) = atRest (s₂ link) :=
    ForwardDynamicsABM.atRest_calcABMPhase3 t solve s₂ link
  have hpose := ForwardDynamicsABM.pose_calcABMPhase2 t s₁ link
  have hR₃ : (s₃ link).R = (s₂ link).R := (congrArg Link.R hrest :)
  have hp₃ : (s₃ link).p = (s₂ link).p := (congrArg Link.p hrest :)
  have hrest₁ := h.atRest_calcABMPhase1 link hmem
  have hR : (s₃ link).R = (s link).R :=
    (hR₃.trans hpose.1).trans (congrArg Link.R hrest₁ :)
  have hp : (s₃ link).p = (s link).p :=
    (hp₃.trans hpose.2).trans (congrArg Link.p hrest₁ :)
  have hinertia : ForwardDynamicsABM.inertiaMap (s₃ link) =
      ForwardDynamicsABM.inertiaMap (s₂ link) :=
    (congrArg ForwardDynamicsABM.inertiaMap hrest :)
  have hbias : biasForce (s₃ link) = biasForce (s₂ link) := (congrArg biasForce hrest :)
  rw [ForwardDynamicsABM.updateForceSensors, updateForceSensor_eq, hinertia, hbias, ← hforce,
    reading_congr hR hp]

/-- **Both dynamics store the reactions** in all sensors, whatever they had before, if and only if
no two of them are on one link. -/
theorem storesReactions_iff (h : HasMotion t g st s) (hmem : ∀ k, (sensors k).link ∈ t.links) :
    (∀ contents : Fin n → Spatial K,
        StoresReactions t g solve st s fun k ↦ (sensors k).hold (contents k)) ↔
      Function.Injective fun k ↦ (sensors k).link := by
  set info := initializeSensors t true fun k ↦ (sensors k).link with hinfo
  constructor
  · intro hall
    -- a sensor that is not in the table keeps what it had, which may be anything
    have hentered (k : Fin n) : (info (sensors k).link).sensor = some k := by
      by_contra hnot
      set x := (sensors k).reading (s (sensors k).link) (reaction t g st s (sensors k).link)
      have hk := (hall (fun _ ↦ x + (1, 0)) k).2
      have hkept := sensors_of_not_entered (t := t) (g := g)
        (fun k ↦ (sensors k).hold (x + (1, 0))) s hnot
      have hx := (sensors k).hold_injective (hkept.symm.trans hk)
      have hone : ((1, 0) : Spatial K) = 0 := left_eq_add.1 hx.symm
      exact one_ne_zero (congrFun (congrArg Prod.fst hone) 0)
    intro k k' hlink
    have hk' := hentered k'
    rw [← show (sensors k).link = (sensors k').link from hlink, hentered k] at hk'
    exact Option.some.inj hk'
  · intro hinj contents k
    have hentered : (info (sensors k).link).sensor = some k := by
      obtain ⟨m, hm⟩ := exists_initializeSensors t (fun k ↦ (sensors k).link) k
      have hmk : m = k := hinj (link_eq_of_initializeSensors hm)
      rw [hinfo, hm, hmk]
    exact ⟨h.updateForceSensors_eq (fun k ↦ (sensors k).hold (contents k)) hsolve hI hdd hroot
      (hmem k), h.sensors_of_entered (fun k ↦ (sensors k).hold (contents k)) (hmem k) hentered⟩

end Sensors

end Main

/-- The drawer in its motion: half of the force for each unit of the mass. -/
def movingDrawer (i : Fin 2) : Link ℚ :=
  setDdq (if i = 1 then 1 / 2 else 0)
    ((calcPositionAndVelocityFK oneJointTree heavyDrawerState).links i)

theorem hasMotion_movingDrawer : HasMotion oneJointTree 0 heavyDrawerState movingDrawer :=
  ⟨fun _ _ ↦ rfl, ⟨by decide +kernel, fun h ↦ absurd h (by decide +kernel)⟩,
    fun _ ↦ by decide +kernel⟩

/-- A force sensor at the origin of a link. -/
def originSensor (link : Fin 2) : ForceSensor (Fin 2) ℚ :=
  ⟨link, 0, 1, 0, 0⟩

theorem storesReactions_iff_movingDrawer :
    (∀ contents : Fin 2 → Spatial ℚ,
        StoresReactions oneJointTree 0 (fun A b ↦ A⁻¹ *ᵥ b) heavyDrawerState movingDrawer
          fun k ↦ (originSensor k).hold (contents k)) ↔
      Function.Injective fun k ↦ (originSensor k).link :=
  storesReactions_iff originSensor
    (fun A b hA ↦ by rw [mulVec_mulVec, mul_nonsing_inv _ hA, one_mulVec])
    (by decide +kernel) (by decide +kernel) (fun h ↦ absurd h (by decide +kernel))
    hasMotion_movingDrawer (by decide +kernel)

/-- Of two sensors on the drawer, the mass-matrix method leaves the first as it is. -/
theorem not_storesReactions_movingDrawer :
    HasMotion oneJointTree 0 heavyDrawerState movingDrawer ∧
      ¬StoresReactions oneJointTree 0 (fun A b ↦ A⁻¹ *ᵥ b) heavyDrawerState movingDrawer
        fun _ : Fin 2 ↦ originSensor 1 := by
  refine ⟨hasMotion_movingDrawer, fun h ↦ ?_⟩
  have hfirst := congrArg ForceSensor.f ((h 0).1.trans (h 0).2.symm)
  revert hfirst
  decide +kernel

end ForwardDynamicsMM

end OpenHRP
