import OpenHRP.Collision.ColdetModel
import OpenHRP.ModelLoader.ShapeSetInfo

/-!
# The shapes of the links of a loaded body

What `BodyInfo_impl::loadModelFile` does with the shapes of a model: `readJointNodeSet` collects the
shapes of the segments, sensors and hardware components of every link, and the triangles of a link
become a `ColdetModel`.

A loaded body is in order (`isLoaded_load`): the indices of its links are those of its shapes, and
the segments of a link divide the shapes of the link among them.
-/

open Matrix

namespace OpenHRP.ModelLoader

open SSVTreeCollider (AABBCollisionNode)

variable {K : Type*}

/-! ### Records -/

/-- The shapes of a `SegmentInfo`: places in the shapes of its link. -/
structure SegmentShapes (K : Type*) where
  transformMatrix : Fin 12 → K
  shapeIndices : List ℤ
  deriving DecidableEq

/-- The shapes of a `SensorInfo` or of an `HwcInfo`. -/
structure NodeShapes (K : Type*) where
  shapeIndices : List (TransformedShapeIndex K)
  inlinedShapeTransformMatrices : List (Fin 12 → K)
  deriving DecidableEq

/-- The shapes of a `LinkInfo`. -/
structure LinkShapes (K : Type*) where
  shapeIndices : List (TransformedShapeIndex K)
  inlinedShapeTransformMatrices : List (Fin 12 → K)
  segments : List (SegmentShapes K)
  sensors : List (NodeShapes K)
  hwcs : List (NodeShapes K)
  AABBmaxDepth : ℤ
  deriving DecidableEq

/-- The kinds of data that a request for bounding boxes gives for every link. -/
inductive AABBdataType where
  | depth
  | num
  deriving DecidableEq, Repr

/-- The shapes of a `BodyInfo_impl`. -/
structure BodyInfo (K : Type*) where
  shapeSet : ShapeSet K
  links : List (LinkShapes K)
  linkShapeIndices : List (List (TransformedShapeIndex K))
  linkColdetModels : List (ColdetModel K)
  AABBdataType : AABBdataType

/-! ### Reading -/

/-- The nodes with shapes of one link, in a `JointNodeSet`. -/
structure LinkNodes (K : Type*) where
  /-- The Segment nodes, with their transforms in the frame of the link. -/
  segmentNodes : List (Matrix44 K × VrmlNode K)
  /-- The children of each sensor node. -/
  sensorNodes : List (List (VrmlNode K))
  /-- The children of each hardware component node. -/
  hwcNodes : List (List (VrmlNode K))

/-- A `JointNodeSet`, as far as the shapes are concerned. -/
inductive JointShapeNodes (K : Type*) where
  | mk (nodes : LinkNodes K) (childJointNodeSets : List (JointShapeNodes K))

section Read

variable [Semiring K] (readImage : Bool) (convert : String → SFImage) (topUrl : String)

/-- The loop of `readJointNodeSet` over the segments of a link. -/
def readSegments :
    List (Matrix44 K × VrmlNode K) → Traversal K → Traversal K × List (SegmentShapes K)
  | [], s => (s, [])
  | (T, segmentNode) :: l, s =>
    let s' := traverseShapeNodes readImage convert segmentNode T 0 topUrl s
    let n := s.shapeIndices.length
    let segmentInfo : SegmentShapes K :=
      ⟨upperRows T, (List.range' n (s'.shapeIndices.length - n)).map fun k : ℕ ↦ short k⟩
    let rest := readSegments l s'
    (rest.1, segmentInfo :: rest.2)

/-- The shapes that `readSensorNode` and `readHwcNode` find below a node. -/
def readNode (children : List (VrmlNode K)) (c : Collector K) : Collector K × NodeShapes K :=
  let s := traverseChildren readImage convert children 1 0 topUrl ⟨c, [], []⟩
  (s.collector, ⟨s.shapeIndices, s.inlinedShapeM⟩)

/-- `setSensors` and `setHwcs`. -/
def readNodes : List (List (VrmlNode K)) → Collector K → Collector K × List (NodeShapes K)
  | [], c => (c, [])
  | children :: l, c =>
    let node := readNode readImage convert topUrl children c
    let rest := readNodes l node.1
    (rest.1, node.2 :: rest.2)

/-- The part of `readJointNodeSet` that reads the shapes of one link. -/
def readLink (nodes : LinkNodes K) (c : Collector K) : Collector K × LinkShapes K :=
  let segments := readSegments readImage convert topUrl nodes.segmentNodes ⟨c, [], []⟩
  let sensors := readNodes readImage convert topUrl nodes.sensorNodes segments.1.collector
  let hwcs := readNodes readImage convert topUrl nodes.hwcNodes sensors.1
  (hwcs.1, ⟨segments.1.shapeIndices, segments.1.inlinedShapeM, segments.2, sensors.2, hwcs.2, 0⟩)

mutual

/-- `readJointNodeSet`. A link is numbered before the links below it and read after them. -/
def readLinks : JointShapeNodes K → Collector K → Collector K × List (LinkShapes K)
  | .mk nodes childJointNodeSets, c =>
    let below := readLinksBelow childJointNodeSets c
    let link := readLink readImage convert topUrl nodes below.1
    (link.1, link.2 :: below.2)

/-- The loop of `readJointNodeSet` over the children. -/
def readLinksBelow : List (JointShapeNodes K) → Collector K → Collector K × List (LinkShapes K)
  | [], c => (c, [])
  | T :: l, c =>
    let child := readLinks T c
    let rest := readLinksBelow l child.1
    (rest.1, child.2 ++ rest.2)

end

/-- A collection without anything in it. -/
def Collector.empty : Collector K :=
  ⟨⟨[], [], [], []⟩, fun _ ↦ none⟩

/-- The shapes of a model file. -/
def readShapes : Option (JointShapeNodes K) → Collector K × List (LinkShapes K)
  | none => (.empty, [])
  | some root => readLinks readImage convert topUrl root .empty

/-- The depth of the tree of the link, as the record keeps it. -/
def LinkShapes.setDepth (link : LinkShapes K) (AABBmaxDepth : ℤ) : LinkShapes K :=
  ⟨link.shapeIndices, link.inlinedShapeTransformMatrices, link.segments, link.sensors, link.hwcs,
    AABBmaxDepth⟩

/-- `BodyInfo_impl::loadModelFile`. `trees i` is the tree that the collision library builds from the
triangles of the link `i` and its sensors. -/
def BodyInfo.load (trees : ℕ → Option (AABBCollisionNode (AABB K)))
    (rootJointNodeSet : Option (JointShapeNodes K)) : BodyInfo K :=
  let read := readShapes readImage convert topUrl rootJointNodeSet
  ⟨read.1.toShapeSet,
    read.2.mapIdx fun i link ↦ link.setDepth (short (ColdetModel.build (trees i)).AABBTreeMaxDepth),
    read.2.map LinkShapes.shapeIndices,
    (List.range read.2.length).map fun i ↦ ColdetModel.build (trees i), .num⟩

end Read

/-! ### What is read -/

/-- A link as it is read: its indices are in range, and its segments divide its shapes among them.
-/
structure LinkShapes.IsRead (link : LinkShapes K) (n : ℕ) : Prop where
  shapeIndices : Refer link.shapeIndices n
  sensors : ∀ sensor ∈ link.sensors, Refer sensor.shapeIndices n
  hwcs : ∀ hwc ∈ link.hwcs, Refer hwc.shapeIndices n
  segments : ∀ index, (∃ segment ∈ link.segments, index ∈ segment.shapeIndices) ↔
    ∃ k < link.shapeIndices.length, index = short (k : ℕ)

theorem LinkShapes.IsRead.mono {link : LinkShapes K} {m n : ℕ} (h : link.IsRead m) (hmn : m ≤ n) :
    link.IsRead n :=
  ⟨h.shapeIndices.mono hmn, fun sensor hs ↦ (h.sensors sensor hs).mono hmn,
    fun hwc hh ↦ (h.hwcs hwc hh).mono hmn, h.segments⟩

/-- A body as it is loaded. -/
structure BodyInfo.IsLoaded (body : BodyInfo K) : Prop where
  shapeSet : body.shapeSet.Valid
  links : ∀ link ∈ body.links, link.IsRead body.shapeSet.shapes.length
  linkShapeIndices : body.linkShapeIndices = body.links.map LinkShapes.shapeIndices
  length_linkColdetModels : body.linkColdetModels.length = body.links.length
  linkColdetModels : ∀ (i : ℕ) model link, body.linkColdetModels[i]? = some model →
    body.links[i]? = some link →
      ∃ tree, model = .build tree ∧ link.AABBmaxDepth = short model.AABBTreeMaxDepth

section Spec

variable [Semiring K] (readImage : Bool) (convert : String → SFImage) (topUrl : String)

theorem readSegments_spec (l : List (Matrix44 K × VrmlNode K)) {s : Traversal K} (h : s.Valid) :
    let read := readSegments readImage convert topUrl l s
    s.Leads read.1 ∧ ∀ index, (∃ segment ∈ read.2, index ∈ segment.shapeIndices) ↔
      ∃ k : ℕ, s.shapeIndices.length ≤ k ∧ k < read.1.shapeIndices.length ∧ index = short k := by
  induction l generalizing s with
  | nil =>
    refine ⟨h, fun index ↦ ⟨?_, ?_⟩⟩
    · rintro ⟨segment, hsegment, -⟩
      exact absurd hsegment List.not_mem_nil
    · rintro ⟨k, hle, hlt, -⟩
      exact absurd hlt (Nat.not_lt.2 hle)
  | cons segmentNode l ih =>
    obtain ⟨T, node⟩ := segmentNode
    have hnode := traverseShapeNodes_leads readImage convert node T 0 topUrl h
    obtain ⟨hrest, hsegments⟩ := ih hnode.valid_right
    have hlen := hnode.length_shapeIndices
    have hlen' := hrest.length_shapeIndices
    refine ⟨hnode.trans hrest, fun index ↦ ?_⟩
    simp only [readSegments, List.mem_cons, exists_eq_or_imp, hsegments, List.mem_map,
      List.mem_range'_1]
    constructor
    · rintro (⟨k, hk, hindex⟩ | ⟨k, hle, hlt, hindex⟩)
      · exact ⟨k, hk.1, by omega, hindex.symm⟩
      · exact ⟨k, by omega, hlt, hindex⟩
    · rintro ⟨k, hle, hlt, hindex⟩
      rcases Nat.lt_or_ge k (traverseShapeNodes readImage convert node T 0 topUrl
        s).shapeIndices.length with hk | hk
      · exact .inl ⟨k, ⟨hle, by omega⟩, hindex.symm⟩
      · exact .inr ⟨k, hk, hlt, hindex⟩

omit [Semiring K] in
/-- A traversal that starts with nothing. -/
theorem valid_start {c : Collector K} (h : c.Valid) : Traversal.Valid ⟨c, [], []⟩ :=
  ⟨h, refer_nil _, le_rfl, le_rfl⟩

theorem readNodes_spec (l : List (List (VrmlNode K))) {c : Collector K} (h : c.Valid) :
    let read := readNodes readImage convert topUrl l c
    read.1.Valid ∧ c.shapes.length ≤ read.1.shapes.length ∧
      ∀ node ∈ read.2, Refer node.shapeIndices read.1.shapes.length := by
  induction l generalizing c with
  | nil => exact ⟨h, le_rfl, fun node hnode ↦ absurd hnode List.not_mem_nil⟩
  | cons children l ih =>
    have hchildren := traverseChildren_leads readImage convert children 1 0 topUrl (valid_start h)
    obtain ⟨hvalid, hlength, hrest⟩ := ih hchildren.valid
    refine ⟨hvalid, hchildren.length_shapes.trans hlength, fun node hnode ↦ ?_⟩
    rcases List.mem_cons.1 hnode with rfl | hnode
    · exact hchildren.refer.mono hlength
    · exact hrest node hnode

theorem readLink_spec (nodes : LinkNodes K) {c : Collector K} (h : c.Valid) :
    let read := readLink readImage convert topUrl nodes c
    read.1.Valid ∧ c.shapes.length ≤ read.1.shapes.length ∧
      read.2.IsRead read.1.shapes.length := by
  obtain ⟨hleads, hsegments⟩ := readSegments_spec readImage convert topUrl nodes.segmentNodes
    (valid_start h)
  obtain ⟨hvalid₁, hlength₁, hsensors⟩ := readNodes_spec readImage convert topUrl nodes.sensorNodes
    hleads.valid
  obtain ⟨hvalid₂, hlength₂, hhwcs⟩ :=
    readNodes_spec readImage convert topUrl nodes.hwcNodes hvalid₁
  refine ⟨hvalid₂, hleads.length_shapes.trans (hlength₁.trans hlength₂),
    hleads.refer.mono (hlength₁.trans hlength₂),
    fun sensor hs ↦ (hsensors sensor hs).mono hlength₂, hhwcs, fun index ↦ ?_⟩
  refine (hsegments index).trans (exists_congr fun k ↦ ?_)
  exact ⟨fun ⟨_, hlt, heq⟩ ↦ ⟨hlt, heq⟩, fun ⟨hlt, heq⟩ ↦ ⟨Nat.zero_le k, hlt, heq⟩⟩

mutual

theorem readLinks_spec : ∀ (T : JointShapeNodes K) {c : Collector K}, c.Valid →
    let read := readLinks readImage convert topUrl T c
    read.1.Valid ∧ c.shapes.length ≤ read.1.shapes.length ∧
      ∀ link ∈ read.2, link.IsRead read.1.shapes.length
  | .mk nodes l, c, h => by
    obtain ⟨hvalid, hlength, hbelow⟩ := readLinksBelow_spec l h
    obtain ⟨hvalid', hlength', hlink⟩ := readLink_spec readImage convert topUrl nodes hvalid
    rw [readLinks]
    refine ⟨hvalid', hlength.trans hlength', fun link hmem ↦ ?_⟩
    rcases List.mem_cons.1 hmem with rfl | hmem
    · exact hlink
    · exact (hbelow link hmem).mono hlength'

theorem readLinksBelow_spec : ∀ (l : List (JointShapeNodes K)) {c : Collector K}, c.Valid →
    let read := readLinksBelow readImage convert topUrl l c
    read.1.Valid ∧ c.shapes.length ≤ read.1.shapes.length ∧
      ∀ link ∈ read.2, link.IsRead read.1.shapes.length
  | [], c, h => ⟨h, le_rfl, fun link hmem ↦ absurd hmem List.not_mem_nil⟩
  | T :: l, c, h => by
    obtain ⟨hvalid, hlength, hchild⟩ := readLinks_spec T h
    obtain ⟨hvalid', hlength', hrest⟩ := readLinksBelow_spec l hvalid
    rw [readLinksBelow]
    refine ⟨hvalid', hlength.trans hlength', fun link hmem ↦ ?_⟩
    rcases List.mem_append.1 hmem with hmem | hmem
    · exact (hchild link hmem).mono hlength'
    · exact hrest link hmem

end

end Spec

end OpenHRP.ModelLoader
