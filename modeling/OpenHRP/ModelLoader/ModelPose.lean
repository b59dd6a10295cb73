import OpenHRP.Kinematics.JointPath
import OpenHRP.Kinematics.Rodrigues
import OpenHRP.ModelLoader.BuiltLinks

/-!
# A loaded body moves as its model file says

A model file gives every link a transform relative to its parent: a translation, a rotation and the
motion of the joint. `createLink` removes the rotations from the tree: it turns every axis and
offset of a link by the accumulated rotation `Rs`, and the attitude of a link in the sense of the
file is `R * Rs`.

For links and sensors this comes out right (`linkTransform_eq`, `sensors_eq`). `createLights` leaves
`Rs` out, so a body moves as the file says exactly when the accumulated rotations of the links with
lights do not change the transforms of the lights (`movesAsFileSays_iff`).
-/

open Matrix

namespace OpenHRP.ModelLoader

variable {K : Type*} [Field K] [CMath K]

/-! ### What the file says -/

/-- `Rot(rotation)`, for a rotation given by axis and angle. -/
def rotationOf (rotation : Fin 4 → K) : Matrix33 K :=
  rodrigues (axisOf rotation) (rotation 3)

/-- The motion of a joint by `q`. -/
def jointTransform (linkInfo : LinkInfo K) (q : K) : RigidTransform K :=
  if linkInfo.jointType = "rotate" then .rot (rodrigues linkInfo.jointAxis q)
  else if linkInfo.jointType = "slide" then .trans (q • linkInfo.jointAxis)
  else 1

/-- The transform of a link relative to its parent. The root does not move by its joint. -/
def localTransform (linkInfo : LinkInfo K) (isRoot : Prop) [Decidable isRoot] (q : K) :
    RigidTransform K :=
  .trans linkInfo.translation * .rot (rotationOf linkInfo.rotation) *
    if isRoot then 1 else jointTransform linkInfo q

theorem localTransform_false (linkInfo : LinkInfo K) (q : K) : localTransform linkInfo False q =
    ⟨linkInfo.translation + rotationOf linkInfo.rotation *ᵥ (jointTransform linkInfo q).p,
      rotationOf linkInfo.rotation * (jointTransform linkInfo q).R⟩ := by
  rw [localTransform, if_neg not_false]
  refine RigidTransform.ext ?_ ?_
  · simp
  · simp

/-- The product of the local transforms along the path from the root. -/
def fileTransform (linkInfoSeq : List (LinkInfo K)) (t : LinkTree ℕ) (q : ℕ → K) (i : ℕ) :
    RigidTransform K :=
  ((t.pathTo i).map fun j ↦ (linkInfoSeq[j]?).elim 1 fun linkInfo ↦
    localTransform linkInfo (j = t.root) (q j)).prod

/-- The product of the rotations along the path from the root. -/
def fileRotation (linkInfoSeq : List (LinkInfo K)) (t : LinkTree ℕ) (i : ℕ) : Matrix33 K :=
  ((t.pathTo i).map fun j ↦ (linkInfoSeq[j]?).elim 1 fun linkInfo ↦
    rotationOf linkInfo.rotation).prod

/-- The transform of a sensor relative to its link. -/
def sensorTransform (sensorInfo : SensorInfo K) : RigidTransform K :=
  .trans sensorInfo.translation * .rot (rotationOf sensorInfo.rotation)

omit [CMath K] in
/-- The transform of a light relative to its link. -/
def lightTransform (lightInfo : LightInfo K) : RigidTransform K :=
  let T := lightInfo.transformMatrix
  ⟨![T 3, T 7, T 11], !![T 0, T 1, T 2; T 4, T 5, T 6; T 8, T 9, T 10]⟩

/-- The axes of rotations and of rotational joints have length one. -/
def HasUnitAxes (linkInfoSeq : List (LinkInfo K)) : Prop :=
  ∀ linkInfo ∈ linkInfoSeq, axisOf linkInfo.rotation ⬝ᵥ axisOf linkInfo.rotation = 1 ∧
    (linkInfo.jointType = "rotate" → linkInfo.jointAxis ⬝ᵥ linkInfo.jointAxis = 1)

/-! ### What the body does -/

omit [CMath K] in
/-- The body with the joint values `q`. -/
def setJointValues (q : ℕ → K) (s : Store ℕ K) : Store ℕ K :=
  fun i ↦ { s i with q := q i }

/-- The links of a body with the joint values `q`, after `calcForwardKinematics` from where the root
is. -/
def moved (body : Body K) (q : ℕ → K) (calcVelocity calcAcceleration : Bool) : Store ℕ K :=
  let t := body.character.tree
  calcForwardKinematics t (.find t t.root false true) calcVelocity calcAcceleration
    (setJointValues q body.state.links)

omit [Field K] [CMath K] in
/-- The pose of a link as the program keeps it. -/
def linkPose (link : Link K) : RigidTransform K :=
  ⟨link.p, link.R⟩

/-- The links are where the file says: position and segment attitude. -/
def LinksAgree (linkInfoSeq : List (LinkInfo K)) (body : Body K) (q : ℕ → K) (s : Store ℕ K) :
    Prop :=
  ∀ i ∈ body.character.tree.links,
    ⟨(s i).p, (s i).R * body.character.Rs i⟩ =
      fileTransform linkInfoSeq body.character.tree q i

/-- Every sensor comes from a record of its link and is where the file says, and every record with
an id and a known type has a sensor. -/
structure SensorsAgree (linkInfoSeq : List (LinkInfo K)) (body : Body K) (q : ℕ → K)
    (s : Store ℕ K) : Prop where
  transform : ∀ type id sensor, body.heap.sensor type id = some sensor →
    ∃ linkInfo, linkInfoSeq[sensor.link]? = some linkInfo ∧ ∃ sensorInfo ∈ linkInfo.sensors,
      sensorInfo.id = id ∧ type = sensorTypeOf sensorInfo.type ∧ sensor.name = sensorInfo.name ∧
      linkPose (s sensor.link) * ⟨sensor.localPos, sensor.localR⟩ =
        fileTransform linkInfoSeq body.character.tree q sensor.link * sensorTransform sensorInfo
  exists_sensor : ∀ (i : ℕ) (linkInfo : LinkInfo K), linkInfoSeq[i]? = some linkInfo →
    ∀ sensorInfo ∈ linkInfo.sensors, 0 ≤ sensorInfo.id → sensorTypeOf sensorInfo.type ≠ .common →
      (body.heap.sensor (sensorTypeOf sensorInfo.type) sensorInfo.id.toNat).isSome

/-- The lights of every link are those of its record, and they are where the file says. -/
def LightsAgree (linkInfoSeq : List (LinkInfo K)) (body : Body K) (q : ℕ → K) (s : Store ℕ K) :
    Prop :=
  ∀ (i : ℕ) (linkInfo : LinkInfo K), linkInfoSeq[i]? = some linkInfo →
    (body.heap.links i).lights.map (fun light ↦
        linkPose (s i) * ⟨light.localPos, light.localR⟩) =
      linkInfo.lights.map fun lightInfo ↦
        fileTransform linkInfoSeq body.character.tree q i * lightTransform lightInfo

/-- A body is made from the records and moves as they say. -/
def MovesAsFileSays (maxlimit : K) (name : String) (linkInfoSeq : List (LinkInfo K))
    (q : ℕ → K) (calcVelocity calcAcceleration : Bool) : Prop :=
  ∃ body, createBody maxlimit name linkInfoSeq = some body ∧
    let s := moved body q calcVelocity calcAcceleration
    LinksAgree linkInfoSeq body q s ∧ SensorsAgree linkInfoSeq body q s ∧
      LightsAgree linkInfoSeq body q s

/-- The accumulated rotations of the links do not change the transforms of their lights. -/
def LightsFixed (linkInfoSeq : List (LinkInfo K)) (t : LinkTree ℕ) : Prop :=
  ∀ (i : ℕ) (linkInfo : LinkInfo K), linkInfoSeq[i]? = some linkInfo →
    ∀ lightInfo ∈ linkInfo.lights,
      .rot (fileRotation linkInfoSeq t i) * lightTransform lightInfo = lightTransform lightInfo

/-! ### Accumulated rotations -/

section Products

variable {linkInfoSeq : List (LinkInfo K)} {t : LinkTree ℕ} {linkInfo : LinkInfo K}

theorem fileRotation_root (hget : linkInfoSeq[t.root]? = some linkInfo) :
    fileRotation linkInfoSeq t t.root = rotationOf linkInfo.rotation := by
  rw [fileRotation, t.pathTo_root, List.map_singleton, hget, List.prod_singleton, Option.elim_some]

theorem fileRotation_child {p c : ℕ} (h : t.parent c = some p)
    (hget : linkInfoSeq[c]? = some linkInfo) :
    fileRotation linkInfoSeq t c = fileRotation linkInfoSeq t p * rotationOf linkInfo.rotation := by
  rw [fileRotation, LinkTree.pathTo_child h, List.map_append, List.prod_append, List.map_singleton,
    hget, List.prod_singleton, Option.elim_some, fileRotation]

theorem fileTransform_root (q : ℕ → K) (hget : linkInfoSeq[t.root]? = some linkInfo) :
    fileTransform linkInfoSeq t q t.root = localTransform linkInfo True 0 := by
  rw [fileTransform, t.pathTo_root, List.map_singleton, hget, List.prod_singleton, Option.elim_some,
    localTransform, localTransform, if_pos rfl, if_pos trivial]

theorem fileTransform_child (q : ℕ → K) {p c : ℕ} (h : t.parent c = some p)
    (hget : linkInfoSeq[c]? = some linkInfo) :
    fileTransform linkInfoSeq t q c =
      fileTransform linkInfoSeq t q p * localTransform linkInfo False (q c) := by
  rw [fileTransform, LinkTree.pathTo_child h, List.map_append, List.prod_append,
    List.map_singleton, hget, List.prod_singleton, Option.elim_some, fileTransform, localTransform,
    localTransform, if_neg (t.ne_root_of_parent h), if_neg not_false]

variable (maxlimit : K)

/-- `Rs` is the accumulated rotation. -/
theorem Rs_heapOf (h : FormTree linkInfoSeq t) : ∀ i ∈ t.links,
    ((heapOf maxlimit linkInfoSeq t).links i).Rs = fileRotation linkInfoSeq t i := by
  refine t.parent_induction ?_ fun p c hpc ih ↦ ?_
  · obtain ⟨root, hroot⟩ := h.exists_linkInfo t.root_mem
    rw [← Heap.bare_Rs, bare_heapOf_root h hroot, fileRotation_root hroot]
    exact one_mul _
  · obtain ⟨linkInfo, hget⟩ := h.exists_linkInfo (t.parent_mem hpc).2
    rw [← Heap.bare_Rs, bare_heapOf_child h hpc hget, fileRotation_child hpc hget, ← ih]
    rfl

variable {maxlimit} (htrig : ∀ x : K, CMath.sin x ^ 2 + CMath.cos x ^ 2 = 1)

include htrig

theorem isRotation_fileRotation (h : FormTree linkInfoSeq t) (hunit : HasUnitAxes linkInfoSeq) :
    ∀ i ∈ t.links, IsRotation (fileRotation linkInfoSeq t i) := by
  have hrotation : ∀ linkInfo ∈ linkInfoSeq, IsRotation (rotationOf linkInfo.rotation) :=
    fun linkInfo hmem ↦ isRotation_rodrigues (hunit linkInfo hmem).1 (htrig _)
  refine t.parent_induction ?_ fun p c hpc ih ↦ ?_
  · obtain ⟨root, hroot⟩ := h.exists_linkInfo t.root_mem
    rw [fileRotation_root hroot]
    exact hrotation root (List.mem_of_getElem? hroot)
  · obtain ⟨linkInfo, hget⟩ := h.exists_linkInfo (t.parent_mem hpc).2
    rw [fileRotation_child hpc hget]
    exact ih.mul (hrotation linkInfo (List.mem_of_getElem? hget))

end Products

/-! ### The initial configuration -/

omit [CMath K] in
/-- What forward kinematics reads of a joint, without its value. -/
def jointData (link : Link K) : JointType × Vector3 K × Vector3 K × Vector3 K :=
  (link.jointType, link.a, link.d, link.b)

section

omit [CMath K]

theorem jointData_of_constants {link link' : Link K} (h : constants link = constants link') :
    jointData link = jointData link' := by
  show jointData (constants link) = jointData (constants link')
  rw [h]

theorem linkPose_of_dropAxis {link link' : Link K} (h : dropAxis link = dropAxis link') :
    linkPose link = linkPose link' := by
  show linkPose (dropAxis link) = linkPose (dropAxis link')
  rw [h]

end

variable (c : Snapshot.Character ℕ K) (b : Snapshot.BodyState ℕ K)

omit [CMath K] in
theorem clearExternalForces_eq (i : ℕ) :
    jointData ((b.clearExternalForces c).links i) = jointData (b.links i) ∧
      linkPose ((b.clearExternalForces c).links i) = linkPose (b.links i) := by
  rw [Snapshot.BodyState.clearExternalForces]
  show jointData (if _ then _ else _) = _ ∧ linkPose (if _ then _ else _) = _
  split_ifs
  · exact ⟨rfl, rfl⟩
  · exact ⟨rfl, rfl⟩

/-- `initializeConfiguration` leaves the joints as they are, but for their values. -/
theorem jointData_initializeConfiguration (i : ℕ) :
    jointData ((b.initializeConfiguration c).links i) = jointData (b.links i) := by
  obtain ⟨ups, downs, htr, -⟩ := LinkTraverse.exists_find c.tree.root_mem false true
  rw [Snapshot.BodyState.initializeConfiguration, (clearExternalForces_eq c _ i).1,
    Snapshot.BodyState.calcForwardKinematics]
  refine (jointData_of_constants (constants_calcForwardKinematics htr true true _ i)).trans ?_
  have hplace : jointData (Function.update b.links c.tree.root
      (Snapshot.BodyState.placeRoot c (b.links c.tree.root)) i) = jointData (b.links i) := by
    by_cases hi : i = c.tree.root
    · rw [hi, Function.update_self]
      rfl
    · rw [Function.update_of_ne hi]
  show jointData (if _ then _ else _) = _
  split_ifs
  · exact hplace
  · exact hplace

/-- `initializeConfiguration` puts the root at its default position. -/
theorem linkPose_root_initializeConfiguration :
    linkPose ((b.initializeConfiguration c).links c.tree.root) =
      ⟨c.defaultRootPosition, c.defaultRootAttitude * (c.Rs c.tree.root)ᵀ⟩ := by
  obtain ⟨ups, downs, htr, -⟩ := LinkTraverse.exists_find c.tree.root_mem false true
  rw [Snapshot.BodyState.initializeConfiguration, (clearExternalForces_eq c _ _).2,
    Snapshot.BodyState.calcForwardKinematics]
  refine (linkPose_of_dropAxis (calcForwardKinematics_base htr true true _)).trans ?_
  show linkPose (if _ then _ else _) = _
  rw [if_pos c.tree.root_mem, Function.update_self]
  rfl

/-! ### One joint -/

theorem jointTypeOf_eq_rotational_iff (jt : String) :
    jointTypeOf jt = .rotationalJoint ↔ jt = "rotate" := by
  rw [jointTypeOf]
  split_ifs <;> simp_all

theorem jointTypeOf_eq_slide_iff (jt : String) :
    jointTypeOf jt = .slideJoint ↔ jt = "slide" := by
  rw [jointTypeOf]
  split_ifs <;> simp_all

section Joint

variable {maxlimit : K} {linkInfo : LinkInfo K} {parentRs : Matrix33 K} {link : Link K}
  (hlink : jointData link = jointData (makeLink maxlimit linkInfo parentRs).link)

include hlink

/-- The joint of a loaded link turns about the rotated axis. -/
theorem jointRotation_makeLink (hRs : IsRotation (parentRs * rotationOf linkInfo.rotation)) :
    jointRotation link = (parentRs * rotationOf linkInfo.rotation) *
      (jointTransform linkInfo link.q).R * (parentRs * rotationOf linkInfo.rotation)ᵀ := by
  obtain ⟨htype, ha, -⟩ : link.jointType = _ ∧ link.a = _ ∧ link.d = _ ∧ link.b = _ := by
    simpa only [jointData, Prod.mk.injEq] using hlink
  replace htype : link.jointType = jointTypeOf linkInfo.jointType := htype
  by_cases hrot : linkInfo.jointType = "rotate"
  · have hjoint := (jointTypeOf_eq_rotational_iff _).2 hrot
    have haxis : link.a = (parentRs * rotationOf linkInfo.rotation) *ᵥ linkInfo.jointAxis :=
      ha.trans (if_pos (.inl hjoint))
    rw [jointRotation, htype, hjoint, jointTransform, if_pos hrot, RigidTransform.rot_R, haxis]
    exact rodrigues_conj hRs _ _
  · have hjoint : jointTypeOf linkInfo.jointType ≠ .rotationalJoint :=
      fun h ↦ hrot ((jointTypeOf_eq_rotational_iff _).1 h)
    have hone : (jointTransform linkInfo link.q).R = 1 := by
      rw [jointTransform, if_neg hrot]
      split_ifs
      · rfl
      · rfl
    rw [hone, mul_one, hRs.mul_transpose, jointRotation, htype]
    rcases hty : jointTypeOf linkInfo.jointType
    · rfl
    · rfl
    · exact absurd hty hjoint
    · rfl

/-- The joint of a loaded link shifts it along the rotated axis. -/
theorem jointOffset_makeLink :
    jointOffset link = parentRs *ᵥ (linkInfo.translation +
      rotationOf linkInfo.rotation *ᵥ (jointTransform linkInfo link.q).p) := by
  obtain ⟨htype, -, hd, hb⟩ : link.jointType = _ ∧ link.a = _ ∧ link.d = _ ∧ link.b = _ := by
    simpa only [jointData, Prod.mk.injEq] using hlink
  replace htype : link.jointType = jointTypeOf linkInfo.jointType := htype
  replace hb : link.b = parentRs *ᵥ linkInfo.translation := hb
  by_cases hslide : linkInfo.jointType = "slide"
  · have hjoint := (jointTypeOf_eq_slide_iff _).2 hslide
    have haxis : link.d = (parentRs * rotationOf linkInfo.rotation) *ᵥ linkInfo.jointAxis :=
      hd.trans (if_pos hjoint)
    have hne : linkInfo.jointType ≠ "rotate" := by rw [hslide]; decide
    rw [jointOffset, htype, hjoint, jointTransform, if_neg hne, if_pos hslide, hb, haxis,
      RigidTransform.trans_p, mulVec_add, mulVec_mulVec, mulVec_smul]
  · have hjoint : jointTypeOf linkInfo.jointType ≠ .slideJoint :=
      fun h ↦ hslide ((jointTypeOf_eq_slide_iff _).1 h)
    have hzero : (jointTransform linkInfo link.q).p = 0 := by
      rw [jointTransform, if_neg hslide]
      split_ifs
      · rfl
      · rfl
    rw [hzero, mulVec_zero, add_zero, ← hb, jointOffset, htype]
    rcases hty : jointTypeOf linkInfo.jointType
    · rfl
    · rfl
    · rfl
    · exact absurd hty hjoint

theorem isRotation_jointRotation (htrig : ∀ x : K, CMath.sin x ^ 2 + CMath.cos x ^ 2 = 1)
    (hRs : IsRotation (parentRs * rotationOf linkInfo.rotation))
    (haxis : linkInfo.jointType = "rotate" → linkInfo.jointAxis ⬝ᵥ linkInfo.jointAxis = 1) :
    IsRotation (jointRotation link) := by
  have hjoint : IsRotation (jointTransform linkInfo link.q).R := by
    rw [jointTransform]
    split_ifs with hrot
    · exact isRotation_rodrigues (haxis hrot) (htrig _)
    · exact .one
    · exact .one
  rw [jointRotation_makeLink hlink hRs]
  exact (hRs.mul hjoint).mul hRs.transpose

end Joint

/-! ### Where links, sensors and lights are -/

section Moved

variable {linkInfoSeq : List (LinkInfo K)} {t : LinkTree ℕ} (maxlimit : K) (name : String)

variable {maxlimit name}

/-- Setting up the body and setting joint values leave the joints as `createLink` made them. -/
theorem jointData_setJointValues (q : ℕ → K) {i : ℕ} {linkInfo : LinkInfo K} {parentRs : Matrix33 K}
    (hmade : (heapOf maxlimit linkInfoSeq t).bare i = madeLink maxlimit i linkInfo parentRs) :
    jointData (setJointValues q (bodyOf maxlimit name linkInfoSeq t).state.links i) =
      jointData (makeLink maxlimit linkInfo parentRs).link := by
  have hinit := jointData_initializeConfiguration
    ((heapOf maxlimit linkInfoSeq t).character name t) (heapOf maxlimit linkInfoSeq t).state i
  refine hinit.trans ?_
  exact congrArg (fun link ↦ jointData link.link) hmade

theorem jointData_root (h : FormTree linkInfoSeq t) (q : ℕ → K) {linkInfo : LinkInfo K}
    (hget : linkInfoSeq[t.root]? = some linkInfo) :
    jointData (setJointValues q (bodyOf maxlimit name linkInfoSeq t).state.links t.root) =
      jointData (makeLink maxlimit linkInfo 1).link :=
  jointData_setJointValues q (bare_heapOf_root h hget)

theorem jointData_child (h : FormTree linkInfoSeq t) (q : ℕ → K) {p c : ℕ}
    (hpc : t.parent c = some p) {linkInfo : LinkInfo K} (hget : linkInfoSeq[c]? = some linkInfo) :
    jointData (setJointValues q (bodyOf maxlimit name linkInfoSeq t).state.links c) =
      jointData (makeLink maxlimit linkInfo (fileRotation linkInfoSeq t p)).link := by
  refine jointData_setJointValues q ((bare_heapOf_child h hpc hget).trans ?_)
  rw [Heap.bare_Rs, Rs_heapOf maxlimit h p (t.parent_mem hpc).1]

theorem lights_heapOf (maxlimit : K) (h : FormTree linkInfoSeq t) {i : ℕ} {linkInfo : LinkInfo K}
    (hget : linkInfoSeq[i]? = some linkInfo) :
    ((heapOf maxlimit linkInfoSeq t).links i).lights = linkInfo.lights.map (makeLight i) := by
  have hi : i ∈ t.links := (h.mem_links i).2 (List.getElem?_eq_some_iff.1 hget).1
  have hmade : ∃ Rs, (heapOf maxlimit linkInfoSeq t).bare i = madeLink maxlimit i linkInfo Rs := by
    by_cases hroot : i = t.root
    · subst hroot
      exact ⟨1, bare_heapOf_root h hget⟩
    · obtain ⟨p, hp⟩ := t.exists_parent hi hroot
      exact ⟨_, bare_heapOf_child h hp hget⟩
  obtain ⟨Rs, hmade⟩ := hmade
  exact (congrArg ModelLink.lights hmade).trans (List.nil_append _)

section Unit

variable (htrig : ∀ x : K, CMath.sin x ^ 2 + CMath.cos x ^ 2 = 1) (h : FormTree linkInfoSeq t)
  (hunit : HasUnitAxes linkInfoSeq) (q : ℕ → K)

include htrig h hunit

/-- The joint rotations of a loaded body are rotations. -/
theorem isRotation_joints : ∀ i ∈ t.links, IsRotation
    (jointRotation (setJointValues q (bodyOf maxlimit name linkInfoSeq t).state.links i)) := by
  intro i hi
  obtain ⟨linkInfo, hget⟩ := h.exists_linkInfo hi
  have haxis := (hunit linkInfo (List.mem_of_getElem? hget)).2
  have hRs := isRotation_fileRotation htrig h hunit i hi
  by_cases hroot : i = t.root
  · subst hroot
    rw [fileRotation_root hget, ← one_mul (rotationOf _)] at hRs
    exact isRotation_jointRotation (jointData_root h q hget) htrig hRs haxis
  · obtain ⟨p, hp⟩ := t.exists_parent hi hroot
    rw [fileRotation_child hp hget] at hRs
    exact isRotation_jointRotation (jointData_child h q hp hget) htrig hRs haxis

variable (maxlimit name)

variable (v a : Bool)

/-- The attitudes of a loaded body are rotations, and position and segment attitude of every link
are those of the file. -/
theorem moved_eq : ∀ i ∈ t.links,
    IsRotation (moved (bodyOf maxlimit name linkInfoSeq t) q v a i).R ∧
      (linkPose (moved (bodyOf maxlimit name linkInfoSeq t) q v a i) *
        .rot (fileRotation linkInfoSeq t i)) = fileTransform linkInfoSeq t q i := by
  obtain ⟨ups, downs, htr, hall⟩ := LinkTraverse.exists_find t.root_mem false true
  set body := bodyOf maxlimit name linkInfoSeq t with hbody
  have hplaced : TreePlaced t (moved body q v a) := treePlaced_calcForwardKinematics htr
    (hall rfl (.inr rfl)) (fun i hi ↦ (isRotation_joints htrig h hunit q i hi).transpose_mul_self)
    v a
  refine t.parent_induction ?_ fun p c hpc ih ↦ ?_
  · obtain ⟨root, hroot⟩ := h.exists_linkInfo t.root_mem
    have hbare : (heapOf maxlimit linkInfoSeq t).bare t.root = _ := bare_heapOf_root h hroot
    have hRs := isRotation_fileRotation htrig h hunit t.root t.root_mem
    -- the root stays at its default pose, with the attitude `Rs * Rsᵀ`
    have hpose : linkPose (moved body q v a t.root) = .trans root.translation := by
      calc linkPose (moved body q v a t.root)
          = linkPose (setJointValues q body.state.links t.root) :=
            linkPose_of_dropAxis (calcForwardKinematics_base htr v a _)
        _ = linkPose (body.state.links t.root) := rfl
        _ = ⟨body.character.defaultRootPosition,
              body.character.defaultRootAttitude * (body.character.Rs t.root)ᵀ⟩ :=
            linkPose_root_initializeConfiguration _ _
        _ = .trans root.translation := by
            refine RigidTransform.ext ?_ ?_
            · exact (congrArg (fun link ↦ link.link.b) hbare).trans (one_mulVec _)
            · show ((heapOf maxlimit linkInfoSeq t).links t.root).Rs *
                ((heapOf maxlimit linkInfoSeq t).links t.root).Rsᵀ = 1
              rw [Rs_heapOf maxlimit h t.root t.root_mem, hRs.mul_transpose]
    refine ⟨?_, ?_⟩
    · have hR : (moved body q v a t.root).R = 1 := congrArg RigidTransform.R hpose
      rw [hR]
      exact .one
    · rw [hpose, fileRotation_root hroot, fileTransform_root q hroot, localTransform,
        if_pos trivial, mul_one]
  · obtain ⟨linkInfo, hget⟩ := h.exists_linkInfo (t.parent_mem hpc).2
    obtain ⟨hrot, heq⟩ := ih
    have hRs := isRotation_fileRotation htrig h hunit c (t.parent_mem hpc).2
    rw [fileRotation_child hpc hget] at hRs
    have hjoint : jointRotation (moved body q v a c) = _ ∧ jointOffset (moved body q v a c) = _ :=
      joint_eq_of_constants (constants_calcForwardKinematics htr v a
        (setJointValues q body.state.links) c)
    have hdata : jointData (setJointValues q body.state.links c) = _ :=
      jointData_child h q hpc hget
    set F := fileRotation linkInfoSeq t p * rotationOf linkInfo.rotation with hF
    have hrotation : jointRotation (moved body q v a c) =
        F * (jointTransform linkInfo (q c)).R * Fᵀ :=
      hjoint.1.trans (jointRotation_makeLink hdata hRs)
    have hoffset : jointOffset (moved body q v a c) = fileRotation linkInfoSeq t p *ᵥ
        (linkInfo.translation +
          rotationOf linkInfo.rotation *ᵥ (jointTransform linkInfo (q c)).p) :=
      hjoint.2.trans (jointOffset_makeLink hdata)
    have hR := (hplaced.placed p c hpc).R
    have hp := (hplaced.placed p c hpc).p
    refine ⟨?_, ?_⟩
    · rw [hR, hjoint.1]
      exact hrot.mul (isRotation_joints htrig h hunit q c (t.parent_mem hpc).2)
    · rw [fileTransform_child q hpc hget, ← heq, fileRotation_child hpc hget, localTransform_false]
      refine RigidTransform.ext ?_ ?_
      · simp only [RigidTransform.mul_p, RigidTransform.mul_R, RigidTransform.rot_p,
          RigidTransform.rot_R, mulVec_zero, add_zero, linkPose]
        rw [hp, hoffset, mulVec_mulVec]
      · simp only [RigidTransform.mul_R, RigidTransform.rot_R, linkPose]
        rw [hR, hrotation]
        calc (moved body q v a p).R * (F * (jointTransform linkInfo (q c)).R * Fᵀ) * F
            = (moved body q v a p).R * F * (jointTransform linkInfo (q c)).R * (Fᵀ * F) := by
              simp only [Matrix.mul_assoc]
          _ = _ := by
              rw [hRs.transpose_mul_self, mul_one, hF]
              simp only [Matrix.mul_assoc]

/-- The links of a loaded body are where the file says. -/
theorem linksAgree : LinksAgree linkInfoSeq (bodyOf maxlimit name linkInfoSeq t) q
    (moved (bodyOf maxlimit name linkInfoSeq t) q v a) := by
  intro i hi
  have hRs : (bodyOf maxlimit name linkInfoSeq t).character.Rs i = fileRotation linkInfoSeq t i :=
    Rs_heapOf maxlimit h i hi
  refine Eq.trans ?_ (moved_eq maxlimit name htrig h hunit q v a i hi).2
  rw [hRs]
  refine RigidTransform.ext ?_ rfl
  rw [RigidTransform.mul_p, RigidTransform.rot_p, mulVec_zero, add_zero]
  rfl

/-- The sensors of a loaded body are where the file says. -/
theorem sensorsAgree : SensorsAgree linkInfoSeq (bodyOf maxlimit name linkInfoSeq t) q
    (moved (bodyOf maxlimit name linkInfoSeq t) q v a) := by
  obtain ⟨root, hroot⟩ := h.exists_linkInfo t.root_mem
  have hrecords := h.records_root hroot
  refine ⟨fun type id sensor hsensor ↦ ?_, fun i linkInfo hget sensorInfo hmem hid htype ↦ ?_⟩
  · have hnd : (LinkPtr.link t.root t.child .null).links.Nodup := by
      rw [LinkTree.links_link_root]
      exact t.links_nodup
    rcases sensor_build hrecords hnd hsensor with hnone | ⟨i, hi, linkInfo, hget, hmade⟩
    · exact absurd hnone (by simp [Heap.blank, Heap.sensor])
    · obtain ⟨sensorInfo, hmem, hmade⟩ := hmade
      rw [LinkTree.links_link_root] at hi
      have hRs : ((heapOf maxlimit linkInfoSeq t).bare i).Rs = fileRotation linkInfoSeq t i :=
        Rs_heapOf maxlimit h i hi
      obtain rfl := hmade.link_eq
      refine ⟨linkInfo, hget, sensorInfo, hmem, hmade.id_eq, hmade.type_eq, hmade.name_eq, ?_⟩
      have hlocal : (⟨sensor.localPos, sensor.localR⟩ : RigidTransform K) =
          .rot (fileRotation linkInfoSeq t sensor.link) * sensorTransform sensorInfo := by
        rw [hmade.localPos_eq, hmade.localR_eq, ← hRs]
        refine RigidTransform.ext ?_ ?_
        · simp [sensorTransform, heapOf]
        · simp [sensorTransform, rotationOf, heapOf]
      have heq := (moved_eq maxlimit name htrig h hunit q v a _ hi).2
      rw [hlocal, ← mul_assoc, heq]
      rfl
  · refine isSome_sensor_build hrecords (.inr ⟨i, ?_, linkInfo, hget, sensorInfo, hmem, ?_⟩)
    · rw [LinkTree.links_link_root, h.mem_links]
      exact (List.getElem?_eq_some_iff.1 hget).1
    · exact ⟨(Int.toNat_of_nonneg hid).symm, rfl, htype⟩

/-- The lights of a loaded body are where the file says when its rotations do not change them, and
only then. -/
theorem lightsAgree_iff :
    LightsAgree linkInfoSeq (bodyOf maxlimit name linkInfoSeq t) q
      (moved (bodyOf maxlimit name linkInfoSeq t) q v a) ↔ LightsFixed linkInfoSeq t := by
  refine forall_congr' fun i ↦ forall_congr' fun linkInfo ↦ forall_congr' fun hget ↦ ?_
  have hi : i ∈ t.links := (h.mem_links i).2 (List.getElem?_eq_some_iff.1 hget).1
  obtain ⟨hrot, heq⟩ := moved_eq maxlimit name htrig h hunit q v a i hi
  have hlights : ((bodyOf maxlimit name linkInfoSeq t).heap.links i).lights =
      linkInfo.lights.map (makeLight i) := lights_heapOf maxlimit h hget
  rw [hlights, List.map_map, List.map_inj_left]
  refine forall₂_congr fun lightInfo _ ↦ ?_
  show linkPose _ * lightTransform lightInfo = fileTransform linkInfoSeq t q i * _ ↔ _
  rw [← heq, mul_assoc, RigidTransform.mul_right_inj_of_isRotation hrot, eq_comm]

end Unit

end Moved

/-! ### Loaded bodies -/

section Real

variable {linkInfoSeq : List (LinkInfo ℝ)} {t : LinkTree ℕ}

theorem sin_sq_add_cos_sq (x : ℝ) : CMath.sin x ^ 2 + CMath.cos x ^ 2 = 1 :=
  Real.sin_sq_add_cos_sq x

/-- **A loaded body moves as its model file says**, links and sensors always, and lights as long as
the accumulated rotations of their links leave their transforms as they are. -/
theorem movesAsFileSays_iff (h : FormTree linkInfoSeq t) (hunit : HasUnitAxes linkInfoSeq)
    (maxlimit : ℝ) (name : String) (q : ℕ → ℝ) (calcVelocity calcAcceleration : Bool) :
    MovesAsFileSays maxlimit name linkInfoSeq q calcVelocity calcAcceleration ↔
      LightsFixed linkInfoSeq t := by
  have hiff := lightsAgree_iff maxlimit name sin_sq_add_cos_sq h hunit q calcVelocity
    calcAcceleration
  rw [MovesAsFileSays, createBody_eq name h]
  constructor
  · rintro ⟨body, hbody, -, -, hlights⟩
    obtain rfl := Option.some_inj.1 hbody
    exact hiff.1 hlights
  · exact fun hfixed ↦ ⟨_, rfl,
      linksAgree maxlimit name sin_sq_add_cos_sq h hunit q calcVelocity calcAcceleration,
      sensorsAgree maxlimit name sin_sq_add_cos_sq h hunit q calcVelocity calcAcceleration,
      hiff.2 hfixed⟩

/-- A link that is turned by half a turn, with a light to one side. -/
noncomputable def lampPost : LinkInfo ℝ where
  toLinkParameters :=
    { LinkInfo.blank.toLinkParameters with
      rotation := ![1, 0, 0, Real.pi]
      lights := [⟨⟨0, 0, 0, 0, 0, true, 0, 0, 0, 0⟩, "lamp", .point,
        ![1, 0, 0, 0, 0, 1, 0, 1, 0, 0, 1, 0]⟩] }
  parentIndex := -1
  childIndices := []

theorem rotationOf_lampPost :
    rotationOf lampPost.rotation = !![1, 0, 0; 0, -1, 0; 0, 0, -1] := by
  have haxis : axisOf lampPost.rotation = ![1, 0, 0] := by simp [axisOf, lampPost]
  have hangle : lampPost.rotation 3 = Real.pi := by simp [lampPost]
  rw [rotationOf, haxis, hangle, rodrigues_pi]

theorem formTree_lampPost : FormTree [lampPost] ⟨0, .null, by simp⟩ := by
  refine formTree_of_records (fun i ↦ ?_) rfl ?_ rfl trivial
  · simp [LinkTree.links]
  · show (-1 : ℤ) < 0
    decide

theorem hasUnitAxes_lampPost : HasUnitAxes [lampPost] := by
  intro linkInfo hmem
  obtain rfl := List.mem_singleton.1 hmem
  refine ⟨by simp [lampPost, axisOf], fun h ↦ absurd h ?_⟩
  show "" ≠ "rotate"
  decide

theorem movesAsFileSays_iff_lampPost :
    MovesAsFileSays 0 "lamp post" [lampPost] 0 true true ↔
      LightsFixed [lampPost] ⟨0, .null, by simp⟩ :=
  movesAsFileSays_iff formTree_lampPost hasUnitAxes_lampPost 0 "lamp post" 0 true true

/-- The light of a turned link is loaded on the wrong side. -/
theorem not_movesAsFileSays_lampPost : FormTree [lampPost] ⟨0, .null, by simp⟩ ∧
    HasUnitAxes [lampPost] ∧ ¬∀ q, MovesAsFileSays 0 "lamp post" [lampPost] q true true := by
  refine ⟨formTree_lampPost, hasUnitAxes_lampPost, fun hmoves ↦ ?_⟩
  obtain ⟨body, hbody, -, -, hlights⟩ := hmoves 0
  rw [createBody_eq _ formTree_lampPost] at hbody
  obtain rfl := Option.some_inj.1 hbody
  have hfixed := (lightsAgree_iff 0 "lamp post" sin_sq_add_cos_sq formTree_lampPost
    hasUnitAxes_lampPost 0 true true).1 hlights
  have hrotation : fileRotation [lampPost] ⟨0, .null, by simp⟩ 0 =
      !![1, 0, 0; 0, -1, 0; 0, 0, -1] := by
    rw [← rotationOf_lampPost]
    exact fileRotation_root rfl
  have heq := hfixed 0 lampPost rfl _ (List.mem_singleton_self _)
  rw [hrotation] at heq
  have hside := congrFun (congrArg RigidTransform.p heq) 1
  simp [lightTransform] at hside
  norm_num at hside

end Real

end OpenHRP.ModelLoader
