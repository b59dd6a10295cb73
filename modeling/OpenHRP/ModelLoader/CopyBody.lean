import OpenHRP.ModelLoader.BuiltLinks

/-!
# Copies of bodies

The copy constructor of `Link` copies a link member by member and then its children; that of `Body`
copies the links, the sensors and the extra joints of a body. Where `operator new` places the copy
of each link is given by an `Allocation`; what it finds in that memory is whatever was there.

Two things are missed. `climit` is not copied, so that a copied link keeps what was in its memory,
and each extra joint is translated in a local variable that is then dropped. So a copy is faithful
exactly when the body has no extra joint and the memory for each link happens to hold its `climit`
(`isCopy_copyBody_iff`).
-/

open Matrix

namespace OpenHRP.ModelLoader

variable {K C : Type*}

/-! ### Bodies -/

/-- The members of a `Link` that `createLink` leaves as the constructor made them. -/
structure LinkRest (K C : Type*) where
  index : ℤ
  defaultJointValue : K
  gearEfficiency : K
  isHighGainMode : Bool
  /-- The collision model. Copying it gives an equal one. -/
  coldetModel : Option C

/-- The memory for links, and the sensors of a body. -/
structure Memory (K C : Type*) where
  heap : Heap K
  rest : ℕ → LinkRest K C

/-- `Body::ExtraJointType`. -/
inductive ExtraJointType where
  | xyz
  | xy
  | z
  deriving DecidableEq, Repr

/-- A `Body::ExtraJoint`. -/
structure ExtraJoint (K : Type*) where
  name : String
  type : ExtraJointType
  axis : Vector3 K
  link : Fin 2 → ℕ
  point : Fin 2 → Vector3 K

/-- The extra joint between other links. -/
def ExtraJoint.setLink (extraJoint : ExtraJoint K) (link : Fin 2 → ℕ) : ExtraJoint K :=
  { extraJoint with link := link }

/-- A `Body`, but for a customizer. Its links are in the memory. -/
structure BodyObject (K C : Type*) where
  name : String
  modelName : String
  tree : LinkTree ℕ
  memory : Memory K C
  nameToLinkMap : String → Option ℕ
  jointIdToLinkArray : List (Option ℕ)
  totalMass : K
  isStaticModel : Bool
  defaultRootPosition : Vector3 K
  defaultRootAttitude : Matrix33 K
  extraJoints : List (ExtraJoint K)

namespace BodyObject

/-- The link at an address. -/
def linkAt (body : BodyObject K C) (i : ℕ) : ModelLink K :=
  body.memory.heap.links i

/-- `sensor(type, id)`. -/
def sensor (body : BodyObject K C) (type : SensorType) (id : ℕ) : Option (Sensor K) :=
  body.memory.heap.sensor type id

end BodyObject

/-- Where `operator new` places the copy of each link of a tree: in memory of its own that no link
of the tree is in. -/
structure Allocation (t : LinkTree ℕ) where
  place : ℕ → ℕ
  place_inj : ∀ i ∈ t.links, ∀ j ∈ t.links, place i = place j → i = j
  place_notMem : ∀ i ∈ t.links, place i ∉ t.links

/-! ### The program -/

/-- The member assignments of the copy constructor of `Link`, in the memory `self`. -/
def copyMembers (self org : ModelLink K) : ModelLink K :=
  { self with
    name := org.name
    link :=
      { self.link with
        jointId := org.link.jointId
        jointType := org.link.jointType
        p := org.link.p
        R := org.link.R
        v := org.link.v
        w := org.link.w
        dv := org.link.dv
        dw := org.link.dw
        q := org.link.q
        dq := org.link.dq
        ddq := org.link.ddq
        u := org.link.u
        a := org.link.a
        d := org.link.d
        b := org.link.b
        m := org.link.m
        I := org.link.I
        c := org.link.c
        fext := org.link.fext
        tauext := org.link.tauext
        Jm2 := org.link.Jm2 }
    Rs := org.Rs
    -- there is no `climit` here
    ulimit := org.ulimit
    llimit := org.llimit
    uvlimit := org.uvlimit
    lvlimit := org.lvlimit
    torqueConst := org.torqueConst
    encoderPulse := org.encoderPulse
    Ir := org.Ir
    gearRatio := org.gearRatio
    rotorResistor := org.rotorResistor
    isCrawler := org.isCrawler
    sensors := []
    lights := [] }

/-- The rest of the member assignments. -/
def copyRest (org : LinkRest K C) : LinkRest K C :=
  { org with index := -1 }

/-- Copying the members of the link at `i` to `place`. -/
def Memory.copyLink (memory : Memory K C) (place i : ℕ) : Memory K C :=
  ⟨memory.heap.setLink place (copyMembers (memory.heap.links place) (memory.heap.links i)),
    Function.update memory.rest place (copyRest (memory.rest i))⟩

/-- The children in the copy constructor of `Link`. The stack hands out the last child first, and
each copy becomes the first child. -/
def copyChildren (place : ℕ → ℕ) : LinkPtr ℕ → Memory K C → LinkPtr ℕ × Memory K C
  | .null, memory => (.null, memory)
  | .link i c s, memory =>
    let (sibling, memory) := copyChildren place s memory
    let memory := memory.copyLink (place i) i
    let (child, memory) := copyChildren place c memory
    (.link (place i) child sibling, memory)

theorem fst_copyChildren (place : ℕ → ℕ) (ptr : LinkPtr ℕ) (memory : Memory K C) :
    (copyChildren place ptr memory).1 = ptr.map place := by
  induction ptr generalizing memory with
  | null => rfl
  | link i c s ihc ihs => simp only [copyChildren, LinkPtr.map, ihc, ihs]

/-- The tree of the copies. -/
def Allocation.tree {t : LinkTree ℕ} (alloc : Allocation t) : LinkTree ℕ where
  root := alloc.place t.root
  child := t.child.map alloc.place
  nodup := by
    rw [LinkPtr.links_map, ← List.map_cons]
    exact List.Nodup.map_on alloc.place_inj t.nodup

/-- The copy of the root link and everything below it. -/
def copyTree (t : LinkTree ℕ) (alloc : Allocation t) (memory : Memory K C) :
    LinkTree ℕ × Memory K C :=
  let r := copyChildren alloc.place t.child (memory.copyLink (alloc.place t.root) t.root)
  (⟨alloc.place t.root, r.1, by
    rw [fst_copyChildren]
    exact alloc.tree.nodup⟩, r.2)

/-- The loop of `updateLinkTree` that numbers the links. -/
def setIndices (links : List ℕ) (rest : ℕ → LinkRest K C) : ℕ → LinkRest K C :=
  links.zipIdx.foldl (fun rest p ↦
    Function.update rest p.1 { rest p.1 with index := p.2 }) rest

/-- The loop of `updateLinkTree` that enters the names. -/
def nameLinks (heap : Heap K) (links : List ℕ) : String → Option ℕ :=
  links.foldl (fun map i ↦ Function.update map (heap.links i).name (some i)) fun _ ↦ none

/-- Index of a link in the traverse of a body: `linkToIndexMap[link]`. -/
def linkToIndexMap (t : LinkTree ℕ) (link : ℕ) : ℕ :=
  if link ∈ t.links then t.links.idxOf link else 0

/-- `linkTraverse_[index]`. -/
def linkTraverse (t : LinkTree ℕ) (index : ℕ) : ℕ :=
  t.links.getD index t.root

/-- `Sensor::operator=`. -/
def Sensor.assign (sensor org : Sensor K) : Sensor K :=
  { sensor with
    name := org.name, type := org.type, id := org.id, localR := org.localR,
    localPos := org.localPos }

/-- The sensor types, in order. -/
def sensorTypes : List SensorType :=
  [.common, .force, .rateGyro, .acceleration, .pressure, .photoInterrupter, .vision, .torque,
    .range]

section Copy

variable [Field K]

/-- One turn of the loop over the sensors of a type: `newLink` gives the copy of a link. -/
def copySensor (newLink : ℕ → ℕ) (type : SensorType) (heap : Heap K) :
    Option (Sensor K) → Heap K
  | none => heap
  | some orgSensor =>
    let heap := createSensor heap (newLink orgSensor.link) type orgSensor.id orgSensor.name
    heap.setSensors type ((heap.allSensors type).modify orgSensor.id
      (Option.map fun sensor ↦ sensor.assign orgSensor))

/-- The loops over the sensors. -/
def copySensors (newLink : ℕ → ℕ) (org heap : Heap K) : Heap K :=
  sensorTypes.foldl (fun heap type ↦
    (org.allSensors type).foldl (copySensor newLink type) heap) heap

/-- One turn of the loop over the extra joints: the copy is a local variable, and nothing is made of
it. -/
def copyExtraJoint (link : Fin 2 → ℕ) (copies : List (ExtraJoint K)) (org : ExtraJoint K) :
    List (ExtraJoint K) :=
  let _extraJoint := org.setLink link
  copies

/-- `updateLinkTree`. -/
def updateLinkTree (body : BodyObject K C) : BodyObject K C :=
  let heap := body.memory.heap
  let joints := OpenHRP.jointIdToLinkArray body.tree fun i ↦ (heap.links i).link
  { body with
    memory := ⟨heap, setIndices body.tree.links body.memory.rest⟩
    nameToLinkMap := nameLinks heap body.tree.links
    jointIdToLinkArray := joints
    totalMass := (body.tree.links.map fun i ↦ (heap.links i).link.m).sum
    isStaticModel :=
      (heap.links body.tree.root).link.jointType = .fixedJoint ∧ joints.length = 0 }

/-- `Body(const Body& org)`. -/
def copyBody (org : BodyObject K C) (alloc : Allocation org.tree) : BodyObject K C :=
  let r := copyTree org.tree alloc
    ⟨⟨org.memory.heap.links, fun _ ↦ [], fun _ ↦ none⟩, org.memory.rest⟩
  let body : BodyObject K C := updateLinkTree
    { name := org.name
      modelName := org.modelName
      tree := r.1
      memory := r.2
      nameToLinkMap := fun _ ↦ none
      jointIdToLinkArray := []
      totalMass := 0
      isStaticModel := false
      defaultRootPosition := org.defaultRootPosition
      defaultRootAttitude := org.defaultRootAttitude
      extraJoints := [] }
  let newLink := fun link ↦ linkTraverse body.tree (linkToIndexMap org.tree link)
  { body with
    memory := ⟨copySensors newLink org.memory.heap body.memory.heap, body.memory.rest⟩
    extraJoints := org.extraJoints.foldl (fun copies orgExtraJoint ↦
      copyExtraJoint (fun j ↦ linkTraverse body.tree
        (org.memory.rest (orgExtraJoint.link j)).index.toNat) copies orgExtraJoint)
          body.extraJoints }

end Copy

/-! ### What a copy should be -/

/-- The model parameters of a link. -/
def ModelLink.parameters [Zero K] [One K] (L : ModelLink K) : ModelLink K :=
  { L with
    link :=
      { Link.blank with
        jointId := L.link.jointId
        jointType := L.link.jointType
        a := L.link.a
        d := L.link.d
        b := L.link.b
        m := L.link.m
        I := L.link.I
        c := L.link.c
        Jm2 := L.link.Jm2 }
    sensors := []
    lights := [] }

/-- The model parameters among the rest of the members. -/
def LinkRest.parameters (L : LinkRest K C) : LinkRest K C :=
  { L with index := 0 }

/-- The sensor on another link. -/
def Sensor.setLink (sensor : Sensor K) (link : ℕ) : Sensor K :=
  { sensor with link := link }

/-- The link of the copy with the index of a link of the original. -/
def sameIndex (org copy : BodyObject K C) (i : ℕ) : ℕ :=
  linkTraverse copy.tree (linkToIndexMap org.tree i)

/-- A body is an independent copy of another one. -/
structure IsCopy [Zero K] [One K] (org copy : BodyObject K C) : Prop where
  root : copy.tree.root = sameIndex org copy org.tree.root
  child : copy.tree.child = org.tree.child.map (sameIndex org copy)
  parameters : ∀ i ∈ org.tree.links,
    (copy.linkAt (sameIndex org copy i)).parameters = (org.linkAt i).parameters ∧
      (copy.memory.rest (sameIndex org copy i)).parameters = (org.memory.rest i).parameters
  sensor : ∀ type id, copy.sensor type id =
    (org.sensor type id).map fun s ↦ s.setLink (sameIndex org copy s.link)
  /-- The lists of sensors that the links have. -/
  sensors : ∀ i ∈ org.tree.links, ∀ type id,
    (type, id) ∈ (copy.linkAt (sameIndex org copy i)).sensors ↔
      ∃ s, org.sensor type id = some s ∧ s.link = i
  extraJoints : copy.extraJoints =
    org.extraJoints.map fun e ↦ e.setLink fun j ↦ sameIndex org copy (e.link j)
  /-- No link of the copy is one of the original, and neither are those that the tables name. -/
  links : ∀ j ∈ copy.tree.links, j ∉ org.tree.links
  nameToLinkMap : ∀ name j, copy.nameToLinkMap name = some j → j ∈ copy.tree.links
  jointIdToLinkArray : ∀ j, some j ∈ copy.jointIdToLinkArray → j ∈ copy.tree.links
  /-- The original stays as it is. -/
  original : ∀ i ∈ org.tree.links, copy.linkAt i = org.linkAt i

/-- The sensors of a body are where their ids say, and they are on its links. -/
structure BodyObject.SensorsRegistered (body : BodyObject K C) : Prop where
  id_eq : ∀ type id s, body.sensor type id = some s → s.id = id
  link_mem : ∀ type id s, body.sensor type id = some s → s.link ∈ body.tree.links
  /-- `Sensor::create` does not make common sensors. -/
  common : ∀ id, body.sensor .common id = none

/-! ### The links -/

theorem links_copyLink (memory : Memory K C) (place i a : ℕ) :
    (memory.copyLink place i).heap.links a =
      if a = place then copyMembers (memory.heap.links place) (memory.heap.links i)
      else memory.heap.links a := by
  show Function.update _ _ _ a = _
  rw [Function.update_apply]

theorem rest_copyLink (memory : Memory K C) (place i a : ℕ) :
    (memory.copyLink place i).rest a =
      if a = place then copyRest (memory.rest i) else memory.rest a := by
  show Function.update _ _ _ a = _
  rw [Function.update_apply]

/-- What copying a list of links does: each copy is in its place, and nothing else has changed. -/
structure Placed (place : ℕ → ℕ) (l : List ℕ) (m m' : Memory K C) : Prop where
  copied : ∀ i ∈ l, m'.heap.links (place i) =
    copyMembers (m.heap.links (place i)) (m.heap.links i) ∧
    m'.rest (place i) = copyRest (m.rest i)
  other : ∀ a, (∀ i ∈ l, place i ≠ a) → m'.heap.links a = m.heap.links a ∧ m'.rest a = m.rest a
  allSensors : m'.heap.allSensors = m.heap.allSensors

theorem placed_copyLink (place : ℕ → ℕ) (i : ℕ) (m : Memory K C) :
    Placed place [i] m (m.copyLink (place i) i) where
  copied j hj := by
    obtain rfl := List.mem_singleton.1 hj
    exact ⟨(links_copyLink ..).trans (if_pos rfl), (rest_copyLink ..).trans (if_pos rfl)⟩
  other a ha := by
    have hne : ¬a = place i := fun h ↦ ha i (List.mem_singleton_self i) h.symm
    exact ⟨(links_copyLink ..).trans (if_neg hne), (rest_copyLink ..).trans (if_neg hne)⟩
  allSensors := rfl

/-- First some links are copied and then others, none of them to the place of another. -/
theorem Placed.append {place : ℕ → ℕ} {l l' : List ℕ} {m m' m'' : Memory K C}
    (h : Placed place l m m') (h' : Placed place l' m' m'')
    (hplace : ∀ i ∈ l, ∀ j ∈ l', place i ≠ place j)
    (hfree : ∀ i ∈ l, ∀ j ∈ l', place i ≠ j) : Placed place (l ++ l') m m'' where
  copied i hi := by
    rcases List.mem_append.1 hi with hi | hi
    · obtain ⟨hlinks, hrest⟩ := h'.other (place i) fun j hj ↦ (hplace i hi j hj).symm
      rw [hlinks, hrest]
      exact h.copied i hi
    · obtain ⟨hlinks, hrest⟩ := h.other i fun j hj ↦ hfree j hj i hi
      obtain ⟨hlinks', -⟩ := h.other (place i) fun j hj ↦ hplace j hj i hi
      rw [← hlinks, ← hrest, ← hlinks']
      exact h'.copied i hi
  other a ha := by
    obtain ⟨hlinks, hrest⟩ := h'.other a fun i hi ↦ ha i (List.mem_append_right _ hi)
    rw [hlinks, hrest]
    exact h.other a fun i hi ↦ ha i (List.mem_append_left _ hi)
  allSensors := h'.allSensors.trans h.allSensors

theorem Placed.perm {place : ℕ → ℕ} {l l' : List ℕ} {m m' : Memory K C} (h : Placed place l m m')
    (hl : ∀ i, i ∈ l' ↔ i ∈ l) : Placed place l' m m' :=
  ⟨fun i hi ↦ h.copied i ((hl i).1 hi), fun a ha ↦ h.other a fun i hi ↦ ha i ((hl i).2 hi),
    h.allSensors⟩

variable {t : LinkTree ℕ} (alloc : Allocation t)

theorem placed_copyChildren {ptr : LinkPtr ℕ} (hptr : ptr.links ⊆ t.links) (hnd : ptr.links.Nodup)
    (m : Memory K C) : Placed alloc.place ptr.links m (copyChildren alloc.place ptr m).2 := by
  induction ptr generalizing m with
  | null => exact ⟨fun _ h ↦ absurd h List.not_mem_nil, fun _ _ ↦ ⟨rfl, rfl⟩, rfl⟩
  | link i c s ihc ihs =>
    rw [LinkPtr.links_link] at hnd
    obtain ⟨hi, hcs⟩ := List.nodup_cons.1 hnd
    obtain ⟨hc, hs, hdisj⟩ := List.nodup_append.1 hcs
    have hit : i ∈ t.links := hptr List.mem_cons_self
    have hct : c.links ⊆ t.links := fun j hj ↦
      hptr (List.mem_cons_of_mem _ (List.mem_append_left _ hj))
    have hst : s.links ⊆ t.links := fun j hj ↦
      hptr (List.mem_cons_of_mem _ (List.mem_append_right _ hj))
    have hplace : ∀ {j k}, j ∈ t.links → k ∈ t.links → j ≠ k → alloc.place j ≠ alloc.place k :=
      fun hj hk hne heq ↦ hne (alloc.place_inj _ hj _ hk heq)
    have hfree : ∀ {j k}, j ∈ t.links → k ∈ t.links → alloc.place j ≠ k := fun hj hk heq ↦
      alloc.place_notMem _ hj (heq ▸ hk)
    -- the siblings, the link itself, its children
    have hsiblings := ihs hst hs m
    have hself := hsiblings.append (placed_copyLink alloc.place i _)
      (fun j hj k hk ↦ hplace (hst hj) (List.mem_singleton.1 hk ▸ hit) fun heq ↦
        hi (List.mem_append_right _ (List.mem_singleton.1 hk ▸ heq ▸ hj)))
      fun j hj k hk ↦ hfree (hst hj) (List.mem_singleton.1 hk ▸ hit)
    have hst' : ∀ j ∈ s.links ++ [i], j ∈ t.links := fun j hj ↦
      (List.mem_append.1 hj).elim (fun hj ↦ hst hj) fun hj ↦ List.mem_singleton.1 hj ▸ hit
    have hall := hself.append (ihc hct hc _)
      (fun j hj k hk ↦ hplace (hst' j hj) (hct hk) fun heq ↦ by
        rcases List.mem_append.1 hj with hj | hj
        · exact hdisj k hk j hj heq.symm
        · exact hi (List.mem_append_left _ (List.mem_singleton.1 hj ▸ heq ▸ hk)))
      fun j hj k hk ↦ hfree (hst' j hj) (hct hk)
    refine hall.perm fun j ↦ ?_
    simp only [LinkPtr.links_link, List.mem_cons, List.mem_append, List.not_mem_nil, or_false]
    tauto

/-- The tree of the copies, and what is in it. -/
theorem copyTree_spec (t : LinkTree ℕ) (alloc : Allocation t) (m : Memory K C) :
    (copyTree t alloc m).1 = alloc.tree ∧ Placed alloc.place t.links m (copyTree t alloc m).2 := by
  refine ⟨?_, ?_⟩
  · simp only [copyTree, fst_copyChildren]
    rfl
  · have hroot : ∀ j ∈ t.child.links, t.root ≠ j := fun j hj heq ↦
      t.root_notMem_child (heq ▸ hj)
    have hchild : t.child.links ⊆ t.links := fun j hj ↦ List.mem_cons_of_mem _ hj
    exact (placed_copyLink alloc.place t.root m).append
      (placed_copyChildren alloc hchild t.child_nodup _)
      (fun i hi j hj heq ↦ by
        obtain rfl := List.mem_singleton.1 hi
        exact hroot j hj (alloc.place_inj _ t.root_mem _ (hchild hj) heq))
      fun i hi j hj heq ↦ by
        obtain rfl := List.mem_singleton.1 hi
        exact alloc.place_notMem _ t.root_mem (heq ▸ hchild hj)

theorem Allocation.links_tree : alloc.tree.links = t.links.map alloc.place := by
  show alloc.place t.root :: (t.child.map alloc.place).links = _
  rw [LinkPtr.links_map]
  rfl

/-- The link with the same index is the copy. -/
theorem linkTraverse_tree {i : ℕ} (hi : i ∈ t.links) :
    linkTraverse alloc.tree (linkToIndexMap t i) = alloc.place i := by
  have hlt : t.links.idxOf i < t.links.length := List.idxOf_lt_length_of_mem hi
  rw [linkTraverse, linkToIndexMap, if_pos hi, alloc.links_tree, List.getD_eq_getElem?_getD,
    List.getElem?_map, List.getElem?_eq_getElem hlt, List.getElem_idxOf]
  rfl

/-! ### The sensors -/

section Sensors

variable [Field K] {type : SensorType}

theorem links_createSensor (h : Heap K) (link : ℕ) (htype : type ≠ .common)
    (id : ℕ) (name : String) : (createSensor h link type id name).links =
      (h.pushSensor link (type, id)).links := by
  simp only [createSensor, Sensor.create, if_neg htype]
  generalize ((h.allSensors type ++ _)[id]?).join = old
  rcases old with _ | sensor <;> rfl

omit [Field K] in
theorem mem_sensors_pushSensor (h : Heap K) (link j : ℕ) (sensor x : SensorType × ℕ) :
    x ∈ ((h.pushSensor link sensor).links j).sensors ↔
      x ∈ (h.links j).sensors ∨ link = j ∧ x = sensor := by
  by_cases hj : link = j
  · subst hj
    simp [Heap.pushSensor, Heap.setLink]
  · simp [Heap.pushSensor, Heap.setLink, hj, Ne.symm hj]

/-- What the loops over the sensors have done: the sensors in the slots `P` are copied, with the
links given by `newLink`. -/
structure SensorsCopied (newLink : ℕ → ℕ) (org h₀ h : Heap K) (P : SensorType → ℕ → Prop) :
    Prop where
  copied : ∀ type id, P type id →
    h.sensor type id = (org.sensor type id).map fun s ↦ s.setLink (newLink s.link)
  empty : ∀ type id, ¬P type id → h.sensor type id = none
  sensors : ∀ j x, x ∈ (h.links j).sensors ↔ x ∈ (h₀.links j).sensors ∨
    P x.1 x.2 ∧ ∃ s, org.sensor x.1 x.2 = some s ∧ newLink s.link = j
  bare : h.bare = h₀.bare
  other : ∀ j, (∀ type id s, org.sensor type id = some s → newLink s.link ≠ j) →
    h.links j = h₀.links j

variable {newLink : ℕ → ℕ}

omit [Field K] in
theorem SensorsCopied.mono {org h₀ h : Heap K} {P P' : SensorType → ℕ → Prop}
    (hcopied : SensorsCopied newLink org h₀ h P) (hP : ∀ type id, P type id → P' type id)
    (hnew : ∀ type id, P' type id → ¬P type id → org.sensor type id = none) :
    SensorsCopied newLink org h₀ h P' where
  copied type id hid := by
    by_cases hold : P type id
    · exact hcopied.copied type id hold
    · rw [hcopied.empty type id hold, hnew type id hid hold, Option.map_none]
  empty type id hid := hcopied.empty type id fun hold ↦ hid (hP type id hold)
  sensors j x := by
    rw [hcopied.sensors]
    refine or_congr_right ⟨fun ⟨hold, hs⟩ ↦ ⟨hP _ _ hold, hs⟩, fun ⟨hid, s, hs, hj⟩ ↦
      ⟨by_contra fun hold ↦ ?_, s, hs, hj⟩⟩
    rw [hnew _ _ hid hold] at hs
    cases hs
  bare := hcopied.bare
  other := hcopied.other

theorem SensorsCopied.copySensor {org h₀ h : Heap K} {P P' : SensorType → ℕ → Prop}
    (hcopied : SensorsCopied newLink org h₀ h P) {s : Sensor K}
    (hs : org.sensor type s.id = some s) (hcommon : type ≠ .common)
    (hP : ∀ ty id, P' ty id ↔ P ty id ∨ ty = type ∧ id = s.id) (hnot : ¬P type s.id) :
    SensorsCopied newLink org h₀ (copySensor newLink type h (some s)) P' := by
  set h' := ModelLoader.copySensor newLink type h (some s) with hh'
  have hlinks : h'.links = (h.pushSensor (newLink s.link) (type, s.id)).links :=
    links_createSensor h (newLink s.link) hcommon s.id s.name
  have hslot : ∀ ty id, h'.sensor ty id =
      if ty = type ∧ id = s.id then some (s.setLink (newLink s.link)) else h.sensor ty id := by
    intro ty id
    rw [hh', ModelLoader.copySensor, Heap.sensor_setSensors, join_getElem?_modify]
    have hcreate := sensor_createSensor h (newLink s.link) type s.id s.name
    split_ifs with hty hid hboth hboth hboth
    · rw [hid, ← Heap.sensor, hcreate, if_pos ⟨rfl, rfl⟩, hcopied.empty _ _ hnot, Option.none_or,
        Sensor.create, if_neg hcommon]
      rfl
    · exact absurd ⟨hty, hid⟩ hboth
    · exact absurd hboth.2 hid
    · rw [← Heap.sensor, hcreate, if_neg fun hb ↦ hid hb.2, hty]
    · exact absurd hboth.1 hty
    · rw [hcreate, if_neg hboth]
  refine ⟨fun ty id hid ↦ ?_, fun ty id hid ↦ ?_, fun j x ↦ ?_, ?_, fun j hj ↦ ?_⟩
  · rw [hslot]
    split_ifs with hboth
    · rw [hboth.1, hboth.2, hs, Option.map_some]
    · exact hcopied.copied ty id (((hP ty id).1 hid).resolve_right hboth)
  · rw [hP, not_or] at hid
    rw [hslot, if_neg hid.2]
    exact hcopied.empty ty id hid.1
  · rw [hlinks, mem_sensors_pushSensor, hcopied.sensors, or_assoc, hP]
    refine or_congr_right ?_
    constructor
    · rintro (⟨hold, hsensor⟩ | ⟨rfl, rfl⟩)
      · exact ⟨.inl hold, hsensor⟩
      · exact ⟨.inr ⟨rfl, rfl⟩, s, hs, rfl⟩
    · rintro ⟨hold | ⟨hty, hid⟩, s', hs', hj⟩
      · exact .inl ⟨hold, s', hs', hj⟩
      · rw [hty, hid, hs] at hs'
        obtain rfl := Option.some_inj.1 hs'
        exact .inr ⟨hj, Prod.ext hty hid⟩
  · have hbare : h'.bare = (h.pushSensor (newLink s.link) (type, s.id)).bare := by
      funext j
      rw [Heap.bare, Heap.bare, hlinks]
    rw [hbare, Heap.bare_pushSensor, hcopied.bare]
  · rw [hlinks, ← hcopied.other j hj]
    exact Function.update_of_ne (Ne.symm (hj _ _ _ hs)) _ _

/-- The loop over the sensors of a type. -/
theorem SensorsCopied.foldl_copySensor {newLink : ℕ → ℕ} {org h₀ : Heap K}
    (horg : ∀ type id s, org.sensor type id = some s → s.id = id ∧ type ≠ .common)
    {P : SensorType → ℕ → Prop} (hP : ∀ id, ¬P type id)
    (l before : List (Option (Sensor K))) (hl : org.allSensors type = before ++ l) {h : Heap K}
    (hcopied : SensorsCopied newLink org h₀ h fun ty id ↦
      P ty id ∨ ty = type ∧ id < before.length) :
    SensorsCopied newLink org h₀ (l.foldl (ModelLoader.copySensor newLink type) h) fun ty id ↦
      P ty id ∨ ty = type ∧ id < (org.allSensors type).length := by
  induction l generalizing before h with
  | nil => rwa [hl, List.append_nil]
  | cons o l ih =>
    have hslot : org.sensor type before.length = o := by
      rw [Heap.sensor, hl, List.getElem?_append_right le_rfl, Nat.sub_self]
      rfl
    refine ih (before ++ [o]) (by rw [hl, List.append_assoc]; rfl) ?_
    have hlength : (before ++ [o]).length = before.length + 1 := List.length_append
    rw [hlength]
    cases o with
    | none =>
      refine hcopied.mono (fun ty id hid ↦ hid.imp_right fun h ↦ ⟨h.1, by omega⟩)
        fun ty id hid hold ↦ ?_
      obtain ⟨rfl, hlt⟩ := hid.resolve_left fun hid ↦ hold (.inl hid)
      obtain rfl : id = before.length := by
        by_contra hne
        exact hold (.inr ⟨rfl, by omega⟩)
      exact hslot
    | some s =>
      obtain ⟨hid, hcommon⟩ := horg _ _ _ hslot
      rw [← hid] at hslot
      refine hcopied.copySensor hslot hcommon (fun ty id ↦ ?_) ?_
      · rw [hid, or_assoc, ← and_or_left, Nat.lt_succ_iff_lt_or_eq]
      · rw [hid]
        exact fun h ↦ h.elim (hP _) fun h ↦ lt_irrefl _ h.2

/-- The loops over the sensors copy them all. -/
theorem sensorsCopied_copySensors {org h : Heap K}
    (horg : ∀ type id s, org.sensor type id = some s → s.id = id ∧ type ≠ .common)
    (hempty : ∀ type id, h.sensor type id = none) :
    SensorsCopied newLink org h (copySensors newLink org h) fun _ _ ↦ True := by
  have hfold : ∀ (types before : List SensorType), (before ++ types).Nodup → ∀ h',
      SensorsCopied newLink org h h' (fun ty _ ↦ ty ∈ before) →
      SensorsCopied newLink org h (types.foldl (fun heap type ↦
        (org.allSensors type).foldl (ModelLoader.copySensor newLink type) heap) h')
        fun ty _ ↦ ty ∈ before ++ types := by
    intro types
    induction types with
    | nil => simp
    | cons type types ih =>
      intro before hnd h' hh'
      have hassoc : before ++ type :: types = before ++ [type] ++ types := by simp
      rw [hassoc] at hnd ⊢
      have hnot : type ∉ before := fun hmem ↦
        (List.nodup_append.1 (List.nodup_append.1 hnd).1).2.2 _ hmem _
          (List.mem_singleton_self _) rfl
      refine ih _ hnd _ ?_
      have hstart : SensorsCopied newLink org h h' fun ty id ↦
          ty ∈ before ∨ ty = type ∧ id < ([] : List (Option (Sensor K))).length :=
        hh'.mono (fun _ _ h ↦ .inl h) fun _ _ h hold ↦
          absurd (h.resolve_left hold).2 (Nat.not_lt_zero _)
      refine (SensorsCopied.foldl_copySensor horg (fun _ ↦ hnot) (org.allSensors type) [] rfl
        hstart).mono (fun ty id h ↦ ?_) fun ty id h hold ↦ ?_
      · exact List.mem_append.2 (h.imp_right fun h ↦ List.mem_singleton.2 h.1)
      · have hty := List.mem_singleton.1 ((List.mem_append.1 h).resolve_left fun h ↦ hold (.inl h))
        have hge : (org.allSensors ty).length ≤ id := by
          by_contra hlt
          exact hold (.inr ⟨hty, by rw [← hty]; omega⟩)
        rw [Heap.sensor, List.getElem?_eq_none hge]
        rfl
  have hstart : SensorsCopied newLink org h h fun ty _ ↦ ty ∈ ([] : List SensorType) :=
    ⟨fun _ _ h ↦ absurd h List.not_mem_nil, fun type id _ ↦ hempty type id,
      fun j x ↦ (or_iff_left fun h ↦ absurd h.1 List.not_mem_nil).symm, rfl, fun _ _ ↦ rfl⟩
  refine (hfold sensorTypes [] (by decide) h hstart).mono (fun _ _ _ ↦ trivial)
    fun type id _ hold ↦ absurd ?_ hold
  cases type <;> decide

end Sensors

/-! ### The tables -/

theorem mem_of_nameLinks {heap : Heap K} {links : List ℕ} {name : String} {j : ℕ}
    (h : nameLinks heap links name = some j) : j ∈ links := by
  have hfold : ∀ (l before : List ℕ) (map : String → Option ℕ),
      (∀ name j, map name = some j → j ∈ before) →
      ∀ name j, l.foldl (fun map i ↦ Function.update map (heap.links i).name (some i)) map name =
        some j → j ∈ before ++ l := by
    intro l
    induction l with
    | nil => exact fun before map hmap name j hj ↦ List.mem_append_left _ (hmap name j hj)
    | cons i l ih =>
      intro before map hmap
      rw [← List.singleton_append, ← List.append_assoc]
      refine ih (before ++ [i]) _ fun name j hj ↦ ?_
      dsimp only at hj
      rw [Function.update_apply] at hj
      split_ifs at hj
      · exact List.mem_append_right _ (by simpa using hj.symm)
      · exact List.mem_append_left _ (hmap name j hj)
  exact hfold links [] _ (fun _ _ h ↦ by cases h) name j h

theorem mem_of_mem_jointIdToLinkArray {t : LinkTree ℕ} {s : Store ℕ K} {j : ℕ}
    (h : some j ∈ OpenHRP.jointIdToLinkArray t s) : j ∈ t.links := by
  have hfold : ∀ (l before : List ℕ) (r : List (Option ℕ) × ℤ),
      (∀ j, some j ∈ r.1 → j ∈ before) →
      ∀ j, some j ∈ (l.foldl (registerJoint s) r).1 → j ∈ before ++ l := by
    intro l
    induction l with
    | nil => exact fun before r hr j hj ↦ List.mem_append_left _ (hr j hj)
    | cons i l ih =>
      intro before r hr
      rw [← List.singleton_append, ← List.append_assoc]
      refine ih (before ++ [i]) _ fun j hj ↦ ?_
      rw [registerJoint] at hj
      split_ifs at hj
      · rcases List.mem_or_eq_of_mem_set hj with hj | hj
        · refine List.mem_append_left _ (hr j ?_)
          simpa using hj
        · exact List.mem_append_right _ (by simpa using hj)
      · exact List.mem_append_left _ (hr j hj)
  exact hfold t.links [] _ (by simp) j (List.mem_of_mem_take h)

/-- Numbering the links changes nothing else. -/
theorem parameters_setIndices (links : List ℕ) (rest : ℕ → LinkRest K C) (i : ℕ) :
    (setIndices links rest i).parameters = (rest i).parameters := by
  have hfold : ∀ (l : List (ℕ × ℕ)) (r : ℕ → LinkRest K C),
      ((l.foldl (fun rest p ↦
        Function.update rest p.1 { rest p.1 with index := p.2 }) r) i).parameters =
      (r i).parameters := by
    intro l
    induction l with
    | nil => exact fun _ ↦ rfl
    | cons p l ih =>
      intro r
      refine (ih _).trans ?_
      dsimp only
      rw [Function.update_apply]
      split_ifs with h
      · rw [h]
        rfl
      · rfl
  exact hfold _ _

/-! ### The copy -/

theorem parameters_copyMembers [Zero K] [One K] (self org : ModelLink K) :
    (copyMembers self org).parameters = org.parameters ↔ self.climit = org.climit := by
  constructor
  · intro h
    exact (congrArg ModelLink.climit h :)
  · intro h
    have heq : (copyMembers self org).climit = org.climit := h
    rw [ModelLink.parameters, heq]
    rfl

theorem foldl_copyExtraJoint (link : ExtraJoint K → Fin 2 → ℕ) (l copies : List (ExtraJoint K)) :
    l.foldl (fun copies e ↦ copyExtraJoint (link e) copies e) copies = copies := by
  induction l with
  | nil => rfl
  | cons e l ih => exact ih

section Main

variable [Field K]

/-- **When a copy is faithful.** For every body and every placement of the copies in memory: the
copy constructor makes an independent copy exactly when the body has no extra joint and the memory
that the copy of each link gets happens to hold the `climit` of that link. -/
theorem isCopy_copyBody_iff (org : BodyObject K C) (alloc : Allocation org.tree)
    (horg : org.SensorsRegistered) : IsCopy org (copyBody org alloc) ↔
      org.extraJoints = [] ∧
        ∀ i ∈ org.tree.links, (org.linkAt (alloc.place i)).climit = (org.linkAt i).climit := by
  set m : Memory K C := ⟨⟨org.memory.heap.links, fun _ ↦ [], fun _ ↦ none⟩, org.memory.rest⟩ with hm
  obtain ⟨htree, hplaced⟩ := copyTree_spec org.tree alloc m
  set copy := copyBody org alloc with hcopy
  have htree' : copy.tree = alloc.tree := htree
  have hindex : ∀ i ∈ org.tree.links, sameIndex org copy i = alloc.place i := fun i hi ↦ by
    rw [sameIndex, htree', linkTraverse_tree alloc hi]
  set heap := (copyTree org.tree alloc m).2.heap with hheap
  have hsensors : SensorsCopied (sameIndex org copy) org.memory.heap heap copy.memory.heap
      fun _ _ ↦ True := by
    refine sensorsCopied_copySensors (fun type id s hs ↦
      ⟨horg.id_eq type id s hs, fun htype ↦ ?_⟩) fun type id ↦ ?_
    · subst htype
      rw [← BodyObject.sensor, horg.common] at hs
      cases hs
    · rw [Heap.sensor, hplaced.allSensors]
      rfl
  -- the sensors aside, the links are as they were placed
  have hparameters : ∀ j, (copy.linkAt j).parameters = (heap.links j).parameters := fun j ↦
    (congrArg ModelLink.parameters (congrFun hsensors.bare j) :)
  have hclimit : ∀ i ∈ org.tree.links,
      ((copy.linkAt (sameIndex org copy i)).parameters = (org.linkAt i).parameters ↔
        (org.linkAt (alloc.place i)).climit = (org.linkAt i).climit) := fun i hi ↦ by
    rw [hparameters, hindex i hi, (hplaced.copied i hi).1]
    exact parameters_copyMembers _ _
  have hextra : copy.extraJoints = [] := foldl_copyExtraJoint _ org.extraJoints []
  constructor
  · intro h
    refine ⟨List.map_eq_nil_iff.1 (h.extraJoints.symm.trans hextra), fun i hi ↦ ?_⟩
    exact (hclimit i hi).1 (h.parameters i hi).1
  · rintro ⟨hnone, hmemory⟩
    refine
      { root := ?_
        child := ?_
        parameters := fun i hi ↦ ⟨(hclimit i hi).2 (hmemory i hi), ?_⟩
        sensor := fun type id ↦ hsensors.copied type id trivial
        sensors := fun i hi type id ↦ ?_
        extraJoints := by rw [hextra, hnone, List.map_nil]
        links := fun j hj ↦ ?_
        nameToLinkMap := fun name j hj ↦ mem_of_nameLinks hj
        jointIdToLinkArray := fun j hj ↦ mem_of_mem_jointIdToLinkArray hj
        original := fun i hi ↦ ?_ }
    · rw [hindex _ org.tree.root_mem, htree']
      rfl
    · rw [htree', LinkPtr.map_congr fun i hi ↦ hindex i (List.mem_cons_of_mem _ hi)]
      rfl
    · rw [hindex i hi]
      refine (parameters_setIndices _ _ _).trans ?_
      rw [(hplaced.copied i hi).2]
      rfl
    · have hnil : (heap.links (alloc.place i)).sensors = [] := by
        rw [(hplaced.copied i hi).1]
        rfl
      refine (hsensors.sensors _ _).trans ?_
      rw [hindex i hi, hnil, or_iff_right List.not_mem_nil, true_and]
      refine exists_congr fun s ↦ and_congr_right fun hs ↦ ?_
      have hlink := horg.link_mem type id s hs
      rw [hindex _ hlink]
      exact ⟨fun h ↦ alloc.place_inj _ hlink _ hi h, congrArg alloc.place⟩
    · rw [htree', alloc.links_tree] at hj
      obtain ⟨i, hi, rfl⟩ := List.mem_map.1 hj
      exact alloc.place_notMem i hi
    · refine (hsensors.other i fun type id s hs heq ↦ ?_).trans
        (hplaced.other i fun k hk heq ↦ alloc.place_notMem k hk (heq ▸ hi)).1
      have hlink := horg.link_mem type id s hs
      exact alloc.place_notMem _ hlink (hindex _ hlink ▸ heq ▸ hi)

end Main

/-! ### A ring of two links -/

/-- A link with the current limit `climit`. -/
def ringLink (climit : ℚ) : ModelLink ℚ :=
  ⟨Link.blank, "RING", 1, false, 0, 1, 0, 0, 0, 0, 0, 0, 0, climit, [], []⟩

theorem nodup_ring : ((0 : ℕ) :: (LinkPtr.link 1 .null .null : LinkPtr ℕ).links).Nodup := by
  decide

/-- Two links in a ring, which an extra joint closes. The memory after them is blank. -/
def ring : BodyObject ℚ Unit where
  name := "ring"
  modelName := "ring"
  tree := ⟨0, .link 1 .null .null, nodup_ring⟩
  memory := ⟨⟨fun i ↦ ringLink (if i < 2 then 1 else 0), fun _ ↦ [], fun _ ↦ none⟩,
    fun i ↦ ⟨i, 0, 1, false, none⟩⟩
  nameToLinkMap := fun _ ↦ none
  jointIdToLinkArray := []
  totalMass := 0
  isStaticModel := true
  defaultRootPosition := 0
  defaultRootAttitude := 1
  extraJoints := [⟨"closing", .xyz, 0, ![0, 1], 0⟩]

/-- The copies are placed after the ring. -/
def ringAllocation : Allocation ring.tree where
  place i := i + 2
  place_inj := by decide
  place_notMem := by decide

theorem isCopy_copyBody_iff_ring : IsCopy ring (copyBody ring ringAllocation) ↔
    ring.extraJoints = [] ∧ ∀ i ∈ ring.tree.links,
      (ring.linkAt (ringAllocation.place i)).climit = (ring.linkAt i).climit :=
  isCopy_copyBody_iff ring ringAllocation
    ⟨fun _ _ _ h ↦ (nomatch h), fun _ _ _ h ↦ (nomatch h), fun _ ↦ rfl⟩

/-- The copy of the ring has no extra joint. -/
theorem not_isCopy_ring : ¬IsCopy ring (copyBody ring ringAllocation) := fun h ↦
  absurd (congrArg List.length h.extraJoints) (by decide)

end OpenHRP.ModelLoader
