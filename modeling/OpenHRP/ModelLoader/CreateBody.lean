import OpenHRP.ModelLoader.BodyInfo
import OpenHRP.Simulator.Snapshot

/-!
# Bodies from link records

`ModelLoaderHelper::createBody` builds a `Body` from the records of a model file. `createLink` makes
a link, its children and then its sensors and lights; the children are pushed on a stack and
prepended one by one, so that they keep the order of `childIndices`.

A link is named by the index of its record. For records that form a tree the recursion makes every
link once, and the tree of the body is the one the records describe (`createBody_eq`).
-/

open Matrix

namespace OpenHRP.ModelLoader

variable {K : Type*}

/-! ### What is made -/

/-- `Sensor::SensorType`. -/
inductive SensorType where
  | common
  | force
  | rateGyro
  | acceleration
  | pressure
  | photoInterrupter
  | vision
  | torque
  | range
  deriving DecidableEq, Repr

/-- The type that the constructor of a sensor sets: sensors without a class of their own are plain
ones. -/
def SensorType.ofClass : SensorType → SensorType
  | .pressure | .photoInterrupter | .torque => .common
  | type => type

/-- A `Sensor`. -/
structure Sensor (K : Type*) where
  name : String
  type : SensorType
  id : ℕ
  link : ℕ
  localR : Matrix33 K
  localPos : Vector3 K

/-- A `Light`. -/
structure Light (K : Type*) extends LightAttributes K where
  name : String
  type : LightType
  link : ℕ
  localR : Matrix33 K
  localPos : Vector3 K

/-- A `Link` with all that `createLink` gives it. A sensor is named by its type and id. -/
structure ModelLink (K : Type*) where
  link : Link K
  name : String
  Rs : Matrix33 K
  isCrawler : Bool
  Ir : K
  gearRatio : K
  rotorResistor : K
  torqueConst : K
  encoderPulse : K
  ulimit : K
  llimit : K
  uvlimit : K
  lvlimit : K
  climit : K
  sensors : List (SensorType × ℕ)
  lights : List (Light K)

/-- The objects of a body under construction. -/
structure Heap (K : Type*) where
  links : ℕ → ModelLink K
  allSensors : SensorType → List (Option (Sensor K))
  nameToSensorMap : String → Option (SensorType × ℕ)

namespace Heap

def setLink (h : Heap K) (i : ℕ) (link : ModelLink K) : Heap K :=
  { h with links := Function.update h.links i link }

def pushSensor (h : Heap K) (i : ℕ) (sensor : SensorType × ℕ) : Heap K :=
  h.setLink i { h.links i with sensors := (h.links i).sensors ++ [sensor] }

def pushLight (h : Heap K) (i : ℕ) (light : Light K) : Heap K :=
  h.setLink i { h.links i with lights := (h.links i).lights ++ [light] }

def setSensors (h : Heap K) (type : SensorType) (sensors : List (Option (Sensor K))) : Heap K :=
  { h with allSensors := Function.update h.allSensors type sensors }

def setSensorName (h : Heap K) (name : String) (sensor : Option (SensorType × ℕ)) : Heap K :=
  { h with nameToSensorMap := Function.update h.nameToSensorMap name sensor }

/-- `Body::sensor(type, id)`. -/
def sensor (h : Heap K) (type : SensorType) (id : ℕ) : Option (Sensor K) :=
  ((h.allSensors type)[id]?).join

end Heap

section Make

variable [Field K]

/-! ### One link -/

/-- The joint type that the string of a record stands for. -/
def jointTypeOf (jt : String) : JointType :=
  if jt = "fixed" then .fixedJoint
  else if jt = "free" then .freeJoint
  else if jt = "rotate" then .rotationalJoint
  else if jt = "slide" then .slideJoint
  else if jt = "crawler" then .fixedJoint
  else .freeJoint

/-- The first three of four numbers. -/
def axisOf (rotation : Fin 4 → K) : Vector3 K :=
  ![rotation 0, rotation 1, rotation 2]

/-- `getMatrix33FromRowMajorArray`. -/
def matrix33FromRowMajorArray (a : Fin 9 → K) : Matrix33 K :=
  !![a 0, a 1, a 2; a 3, a 4, a 5; a 6, a 7, a 8]

omit [Field K] in
/-- `getLimitValue`. -/
def getLimitValue (limitseq : List K) (defaultValue : K) : K :=
  limitseq.head?.getD defaultValue

variable [CMath K] (maxlimit : K)

/-- The link as `createLink` fills it in before it makes the children. -/
def makeLink (linkInfo : LinkInfo K) (parentRs : Matrix33 K) : ModelLink K :=
  let Rs := parentRs * rodrigues (axisOf linkInfo.rotation) (linkInfo.rotation 3)
  let jt := linkInfo.jointType
  let axis := Rs *ᵥ linkInfo.jointAxis
  { link :=
      { Link.blank with
        jointId := linkInfo.jointId
        b := parentRs *ᵥ linkInfo.translation
        jointType := jointTypeOf jt
        a := if jointTypeOf jt = .rotationalJoint ∨ jt = "crawler" then axis else 0
        d := if jointTypeOf jt = .slideJoint then axis else 0
        m := linkInfo.mass
        Jm2 := linkInfo.rotorInertia * linkInfo.gearRatio * linkInfo.gearRatio
        c := Rs *ᵥ linkInfo.centerOfMass
        I := Rs * matrix33FromRowMajorArray linkInfo.inertia * Rsᵀ }
    name := linkInfo.name
    Rs := Rs
    isCrawler := jt = "crawler"
    Ir := linkInfo.rotorInertia
    gearRatio := linkInfo.gearRatio
    rotorResistor := linkInfo.rotorResistor
    torqueConst := linkInfo.torqueConst
    encoderPulse := linkInfo.encoderPulse
    ulimit := getLimitValue linkInfo.ulimit maxlimit
    llimit := getLimitValue linkInfo.llimit (-maxlimit)
    uvlimit := getLimitValue linkInfo.uvlimit maxlimit
    lvlimit := getLimitValue linkInfo.lvlimit (-maxlimit)
    climit := getLimitValue linkInfo.climit maxlimit
    sensors := []
    lights := [] }

/-! ### Sensors and lights -/

omit [CMath K] in
/-- `Sensor::create`. There is no common sensor. -/
def Sensor.create (type : SensorType) : Option (Sensor K) :=
  if type = .common then none else some ⟨"", type.ofClass, 0, 0, 0, 0⟩

omit [CMath K] in
/-- `Body::createSensor`, with the name map that it keeps. -/
def createSensor (h : Heap K) (link : ℕ) (type : SensorType) (id : ℕ) (name : String) : Heap K :=
  let sensors := h.allSensors type ++ List.replicate (id + 1 - (h.allSensors type).length) none
  let h := h.setSensors type sensors
  let old := sensors[id]?.join
  let h := old.elim h fun sensor ↦ h.setSensorName sensor.name none
  (old.or (Sensor.create type)).elim h fun sensor ↦
    let sensor := { sensor with id := id, link := link, name := name }
    let h := h.setSensors type (sensors.set id (some sensor))
    (h.setSensorName name (some (type, id))).pushSensor link (type, id)

/-- The sensor type that the string of a record stands for. -/
def sensorTypeOf (type : String) : SensorType :=
  if type = "Force" then .force
  else if type = "RateGyro" then .rateGyro
  else if type = "Acceleration" then .acceleration
  else if type = "Vision" then .vision
  else if type = "Range" then .range
  else .common

/-- The pose that `createSensors` gives a sensor. -/
def placeSensor (Rs : Matrix33 K) (sensorInfo : SensorInfo K) (sensor : Sensor K) : Sensor K :=
  { sensor with
    localPos := Rs *ᵥ sensorInfo.translation
    localR := Rs * rodrigues (axisOf sensorInfo.rotation) (sensorInfo.rotation 3) }

/-- One turn of the loop of `createSensors`. A sensor without an id is left out. -/
def createSensorOf (link : ℕ) (Rs : Matrix33 K) (h : Heap K) (sensorInfo : SensorInfo K) : Heap K :=
  if sensorInfo.id < 0 then h
  else
    let type := sensorTypeOf sensorInfo.type
    let id := sensorInfo.id.toNat
    let h := createSensor h link type id sensorInfo.name
    h.setSensors type ((h.allSensors type).modify id (Option.map (placeSensor Rs sensorInfo)))

/-- `createSensors`. -/
def createSensors (link : ℕ) (sensorInfoSeq : List (SensorInfo K)) (Rs : Matrix33 K)
    (h : Heap K) : Heap K :=
  sensorInfoSeq.foldl (createSensorOf link Rs) h

omit [CMath K] in
/-- The attributes that `createLights` copies, by the kind of light; the others stay as they are. -/
def lightAttributes (lightInfo : LightInfo K) (unset : LightAttributes K) : LightAttributes K :=
  match lightInfo.type with
  | .point =>
    { unset with
      ambientIntensity := lightInfo.ambientIntensity
      attenuation := lightInfo.attenuation
      color := lightInfo.color
      intensity := lightInfo.intensity
      location := lightInfo.location
      on := lightInfo.on
      radius := lightInfo.radius }
  | .directional =>
    -- the source takes the direction from the color here
    { unset with
      ambientIntensity := lightInfo.ambientIntensity
      color := lightInfo.color
      intensity := lightInfo.intensity
      on := lightInfo.on
      direction := lightInfo.color }
  | .spot => lightInfo.toLightAttributes

omit [CMath K] in
/-- The light that `createLights` makes of a record. The rotation of the link is not applied. -/
def makeLight (link : ℕ) (lightInfo : LightInfo K) : Light K :=
  let T := lightInfo.transformMatrix
  { toLightAttributes := lightAttributes lightInfo ⟨0, 0, 0, 0, 0, false, 0, 0, 0, 0⟩
    name := lightInfo.name
    type := lightInfo.type
    link := link
    localPos := ![T 3, T 7, T 11]
    localR := !![T 0, T 1, T 2; T 4, T 5, T 6; T 8, T 9, T 10] }

omit [CMath K] in
/-- `createLights`. -/
def createLights (link : ℕ) (lightInfoSeq : List (LightInfo K)) (h : Heap K) : Heap K :=
  lightInfoSeq.foldl (fun h lightInfo ↦ h.pushLight link (makeLight link lightInfo)) h

/-! ### The recursion -/

/-- `Link::addChild`, for a child without a parent: it becomes the first child. -/
def addChild : LinkPtr ℕ → LinkPtr ℕ → LinkPtr ℕ
  | .link i child sibling, .link j c _ => .link i (.link j c child) sibling
  | link, _ => link

/-- The loop of `createLink` over the child indices: the stack of children. -/
def createChildren (create : ℤ → Heap K → Option (LinkPtr ℕ × Heap K)) :
    List ℤ → List (LinkPtr ℕ) × Heap K → Option (List (LinkPtr ℕ) × Heap K)
  | [], s => some s
  | childIndex :: l, s =>
    match create childIndex s.2 with
    | none => none
    | some (childLink, h) => createChildren create l (childLink :: s.1, h)

/-- `createLink`. The number bounds the recursion; out of it, and for an index out of range, there
is no result. -/
def createLink (linkInfoSeq : List (LinkInfo K)) :
    ℕ → ℤ → Matrix33 K → Heap K → Option (LinkPtr ℕ × Heap K)
  | 0, _, _, _ => none
  | fuel + 1, index, parentRs, h =>
    match linkInfoAt linkInfoSeq index with
    | none => none
    | some linkInfo =>
      let i := index.toNat
      let Rs := (makeLink maxlimit linkInfo parentRs).Rs
      match createChildren (createLink linkInfoSeq fuel · Rs) linkInfo.childIndices
        ([], h.setLink i (makeLink maxlimit linkInfo parentRs)) with
      | none => none
      | some (children, h) =>
        some (children.foldl addChild (.link i .null .null),
          createLights i linkInfo.lights (createSensors i linkInfo.sensors Rs h))

/-- A `Body` as `createBody` returns it: what is fixed from now on, what changes, and the objects
it is made of. -/
structure Body (K : Type*) where
  character : Snapshot.Character ℕ K
  state : Snapshot.BodyState ℕ K
  heap : Heap K

/-- The root of the records: the only one without a parent. -/
def rootIndex (linkInfoSeq : List (LinkInfo K)) : Option ℕ :=
  match linkInfoSeq.zipIdx.filter fun p ↦ p.1.parentIndex < 0 with
  | [p] => some p.2
  | _ => none

/-- The heap before anything is made. -/
def Heap.blank : Heap K where
  links := fun _ ↦ ⟨Link.blank, "", 1, false, 0, 0, 0, 0, 0, 0, 0, 0, 0, 0, [], []⟩
  allSensors := fun _ ↦ []
  nameToSensorMap := fun _ ↦ none

omit [CMath K] in
/-- `setRootLink` and `setDefaultRootPosition`: the body of the links that were made. -/
def Heap.character (h : Heap K) (name : String) (tree : LinkTree ℕ) : Snapshot.Character ℕ K where
  name := name
  tree := tree
  linkName := fun i ↦ (h.links i).name
  Rs := fun i ↦ (h.links i).Rs
  isCrawler := fun i ↦ (h.links i).isCrawler
  joints := jointIdToLinkArray tree fun i ↦ (h.links i).link
  defaultRootPosition := (h.links tree.root).link.b
  defaultRootAttitude := (h.links tree.root).Rs
  numForceSensors := (h.allSensors .force).length
  numRateGyros := (h.allSensors .rateGyro).length
  numAccelSensors := (h.allSensors .acceleration).length

omit [CMath K] in
/-- The links as they were made, with all sensor values at zero. -/
def Heap.state (h : Heap K) : Snapshot.BodyState ℕ K where
  links := fun i ↦ (h.links i).link
  isHighGainMode := fun _ ↦ false
  forceSensor := fun _ ↦ (0, 0)
  rateGyro := fun _ ↦ 0
  accelSensor := fun _ ↦ 0

/-- `createBody`. There is no result for records of which some link would be made twice. -/
def createBody (name : String) (linkInfoSeq : List (LinkInfo K)) : Option (Body K) :=
  match rootIndex linkInfoSeq with
  | none => none
  | some rootIndex =>
    match createLink maxlimit linkInfoSeq linkInfoSeq.length rootIndex 1 .blank with
    | some (.link root child _, h) =>
      if hnodup : (root :: child.links).Nodup then
        let character := h.character name ⟨root, child, hnodup⟩
        some ⟨character, h.state.initializeConfiguration character, h⟩
      else none
    | _ => none

end Make

/-! ### The recursion makes the tree of the records -/

section Build

variable [Field K] [CMath K] (maxlimit : K) (linkInfoSeq : List (LinkInfo K))

/-- What the recursion leaves behind after the links of a sibling chain and all below them. -/
def build : LinkPtr ℕ → Matrix33 K → Heap K → Heap K
  | .null, _, h => h
  | .link i child sibling, parentRs, h =>
    build sibling parentRs <| (linkInfoSeq[i]?).elim h fun linkInfo ↦
      let link := makeLink maxlimit linkInfo parentRs
      createLights i linkInfo.lights <| createSensors i linkInfo.sensors link.Rs <|
        build child link.Rs (h.setLink i link)

/-- The links of a sibling chain, each with what is below it and no sibling. -/
def singles : LinkPtr ℕ → List (LinkPtr ℕ)
  | .null => []
  | .link i child sibling => .link i child .null :: singles sibling

theorem foldr_addChild (i : ℕ) (ptr : LinkPtr ℕ) (s : LinkPtr ℕ) :
    (singles ptr).foldr (fun child link ↦ addChild link child) (.link i .null s) =
      .link i ptr s := by
  induction ptr with
  | null => rfl
  | link j c sibling _ ih => rw [singles, List.foldr_cons, ih, addChild]

variable {linkInfoSeq}

/-- A link is made with the children that the loop over its child indices makes. -/
theorem createLink_of_createChildren {fuel i : ℕ} {child : LinkPtr ℕ} {linkInfo : LinkInfo K}
    (hget : linkInfoSeq[i]? = some linkInfo)
    (hchild : linkInfo.childIndices = child.siblings.map Nat.cast)
    (hloop : ∀ Rs stack heap, createChildren (createLink maxlimit linkInfoSeq fuel · Rs)
      (child.siblings.map Nat.cast) (stack, heap) = some ((singles child).reverse ++ stack,
        build maxlimit linkInfoSeq child Rs heap)) (Rs : Matrix33 K) (heap : Heap K) :
    createLink maxlimit linkInfoSeq (fuel + 1) i Rs heap =
      some (.link i child .null, build maxlimit linkInfoSeq (.link i child .null) Rs heap) := by
  rw [createLink, linkInfoAt_natCast, hget]
  simp only [hchild, Int.toNat_natCast]
  rw [hloop, List.append_nil]
  simp only [List.foldl_reverse, foldr_addChild, build, hget, Option.elim]

/-- The loop over the children of a link makes them and leaves the last one on top of the stack. -/
theorem createChildren_eq {fuel : ℕ} {p : ℤ} {ptr : LinkPtr ℕ} (h : Records linkInfoSeq p ptr)
    (hfuel : ptr.links.length ≤ fuel) (Rs : Matrix33 K) (stack : List (LinkPtr ℕ)) (heap : Heap K) :
    createChildren (createLink maxlimit linkInfoSeq fuel · Rs) (ptr.siblings.map Nat.cast)
      (stack, heap) = some ((singles ptr).reverse ++ stack,
        build maxlimit linkInfoSeq ptr Rs heap) := by
  induction ptr generalizing fuel p Rs stack heap with
  | null => rfl
  | link i child sibling ihc ihs =>
    obtain ⟨⟨linkInfo, hget, -, hchild⟩, hc, hs⟩ := h
    rw [LinkPtr.links_link, List.length_cons, List.length_append] at hfuel
    obtain ⟨fuel, rfl⟩ : ∃ n, fuel = n + 1 := ⟨fuel - 1, by omega⟩
    rw [LinkPtr.siblings_link, List.map_cons, createChildren,
      createLink_of_createChildren maxlimit hget hchild (ihc hc (by omega))]
    simp only
    rw [ihs hs (by omega), singles, List.reverse_cons, List.append_assoc]
    simp only [build, List.cons_append, List.nil_append]

variable {maxlimit}

theorem filter_zipIdx_eq_singleton {α : Type*} {l : List α} {p : α × ℕ → Bool} {k : ℕ} {x : α}
    (hk : l[k]? = some x) (h : ∀ i y, l[i]? = some y → (p (y, i) = true ↔ i = k)) :
    l.zipIdx.filter p = [(x, k)] := by
  refine List.perm_singleton.1 ((List.perm_ext_iff_of_nodup ?_ (List.nodup_singleton _)).2 ?_)
  · refine List.Nodup.filter _ (List.Nodup.of_map Prod.snd ?_)
    rw [List.zipIdx_map_snd]
    exact List.nodup_range'
  · rintro ⟨y, i⟩
    rw [List.mem_filter, List.mk_mem_zipIdx_iff_getElem?, List.mem_singleton, Prod.mk.injEq]
    constructor
    · rintro ⟨hi, hp⟩
      obtain rfl := (h i y hi).1 hp
      exact ⟨Option.some_inj.1 (hi.symm.trans hk), rfl⟩
    · rintro ⟨rfl, rfl⟩
      exact ⟨hk, (h i y hk).2 rfl⟩

omit [Field K] [CMath K] in
/-- The root of a tree of records is found. -/
theorem rootIndex_eq {t : LinkTree ℕ} (h : FormTree linkInfoSeq t) :
    rootIndex linkInfoSeq = some t.root := by
  obtain ⟨root, hroot⟩ := h.exists_linkInfo t.root_mem
  have hfilter : linkInfoSeq.zipIdx.filter (fun p ↦ p.1.parentIndex < 0) = [(root, t.root)] := by
    refine filter_zipIdx_eq_singleton hroot fun i linkInfo hi ↦ ?_
    rw [decide_eq_true_iff]
    show linkInfo.parentIndex < 0 ↔ i = t.root
    refine ⟨fun hneg ↦ ?_, fun hi' ↦ h.parentIndex_root linkInfo (hi' ▸ hi)⟩
    by_contra hne
    obtain ⟨q, hq⟩ := t.exists_parent
      ((h.mem_links i).2 (List.getElem?_eq_some_iff.1 hi).1) hne
    have hparent := (h.parentIndex i linkInfo hi q).2 hq
    omega
  rw [rootIndex, hfilter]

/-- The objects of the body of a tree of records. -/
def heapOf (maxlimit : K) (linkInfoSeq : List (LinkInfo K)) (t : LinkTree ℕ) : Heap K :=
  build maxlimit linkInfoSeq (.link t.root t.child .null) 1 .blank

/-- The body of a tree of records. -/
def bodyOf (maxlimit : K) (name : String) (linkInfoSeq : List (LinkInfo K)) (t : LinkTree ℕ) :
    Body K :=
  let heap := heapOf maxlimit linkInfoSeq t
  ⟨heap.character name t, heap.state.initializeConfiguration (heap.character name t), heap⟩

/-- For records that form a tree `createBody` makes a body of that tree. -/
theorem createBody_eq (name : String) {t : LinkTree ℕ} (h : FormTree linkInfoSeq t) :
    createBody maxlimit name linkInfoSeq = some (bodyOf maxlimit name linkInfoSeq t) := by
  obtain ⟨root, hroot⟩ := h.exists_linkInfo t.root_mem
  obtain ⟨⟨linkInfo, hget, -, hchild⟩, hrecords, -⟩ := h.records_root hroot
  -- no link is twice in the tree, so the recursion is no deeper than there are records
  have hlength : t.child.links.length + 1 ≤ linkInfoSeq.length := by
    have hsub : t.links.Subperm (List.range linkInfoSeq.length) :=
      t.links_nodup.subperm fun i hi ↦ List.mem_range.2 ((h.mem_links i).1 hi)
    simpa [LinkTree.links] using hsub.length_le
  obtain ⟨fuel, hfuel⟩ : ∃ n, linkInfoSeq.length = n + 1 :=
    ⟨linkInfoSeq.length - 1, by omega⟩
  have hcreate := createLink_of_createChildren maxlimit hget hchild
    (createChildren_eq maxlimit hrecords (by omega : _ ≤ fuel)) 1 (Heap.blank : Heap K)
  rw [createBody, rootIndex_eq h]
  simp only [hfuel, hcreate, dif_pos t.nodup]
  rfl

end Build

end OpenHRP.ModelLoader
