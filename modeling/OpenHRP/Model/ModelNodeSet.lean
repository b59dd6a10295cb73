import OpenHRP.Util.VrmlNodes
import Mathlib.Data.Matrix.Basic
import Mathlib.Tactic.Abel

/-!
# The joint tree of a model file

`ModelNodeSet` reads the nodes of a model file and takes from the Humanoid node the tree of its
joints (`loadModelFile`). Below a Joint node it goes through Groups, Transforms and the instances of
PROTOs that it does not know, and collects the Segments, the sensors, the hardware components and
the lights. Of a Segment it also goes through the children, where only sensors are accepted.

The places that this search reaches below a Joint are listed by `reachAll`, each with its `Step`s
from the Joint, and `Place.Allowed` says from the steps alone whether the node may be there. A file
is refused when a reached node is not allowed. Otherwise the tree that results has, for every Joint,
the nodes reached below it in the order of the file (`Extracts`).

The children of a sensor or of a hardware component are not reached.
-/

namespace OpenHRP.ModelNodeSet

open Vrml (FieldTypeId)

variable {K : Type}

/-- Four-by-four matrices. -/
abbrev Matrix44 (K : Type) := Matrix (Fin 4) (Fin 4) K

/-! ### The nodes of a file -/

/-- A node of the scene graph, as `extractChildNodes` tells them apart. -/
inductive VrmlNode (K : Type) where
  /-- A grouping node that is not a Transform, with what `getChildren` gives. -/
  | group (children : List (VrmlNode K))
  /-- A Transform node, with the matrix that `calcTransformMatrix` makes of its fields. -/
  | transform (Tlocal : Matrix44 K) (children : List (VrmlNode K))
  | light (defName : String)
  /-- The instance of a PROTO. There are no children when it has no such field. -/
  | protoInstance (protoName defName : String) (children : List (VrmlNode K))
  | other

/-- The names and the types of the fields of a PROTO. -/
structure VrmlProto where
  protoName : String
  fields : List (String × FieldTypeId)

/-- What `readNode` gives: the definition of a PROTO, an instance of one, of which `humanoidBody`
is the field of that name, another node, or an exception with a message. -/
inductive TopNode (K : Type) where
  | protoDef (proto : VrmlProto)
  | protoInstance (protoName : String) (humanoidBody : List (VrmlNode K))
  | other
  | illegal (fullMessage : String)

/-! ### Checking a PROTO -/

/-- `getLabelOfFieldType`. -/
def getLabelOfFieldType : FieldTypeId → String
  | .SFINT32 => "SFInt32"
  | .MFINT32 => "MFInt32"
  | .SFFLOAT => "SFFloat"
  | .MFFLOAT => "MFFloat"
  | .SFVEC2F => "SFVec3f"
  | .MFVEC2F => "MFVec2f"
  | .SFVEC3F => "SFVec3f"
  | .MFVEC3F => "MFVec3f"
  | .SFROTATION => "SFRotation"
  | .MFROTATION => "MFRotation"
  | .SFTIME => "SFTime"
  | .MFTIME => "MFTime"
  | .SFCOLOR => "SFColor"
  | .MFCOLOR => "MFColor"
  | .SFSTRING => "SFString"
  | .MFSTRING => "MFString"
  | .SFNODE => "SFNode"
  | .MFNODE => "MFNode"
  | .SFBOOL => "SFBool"
  | .SFIMAGE => "SFImage"
  | .UNDETERMINED_FIELD_TYPE => "Unknown Field Type"

/-- `getField`, of which only the type is looked at. -/
def VrmlProto.getField (proto : VrmlProto) (name : String) : Option FieldTypeId :=
  proto.fields.lookup name

/-- `throwExceptionOfIllegalField`. -/
def illegalField (proto : VrmlProto) (name : String) (typeId : FieldTypeId) : String :=
  "Proto \"" ++ proto.protoName ++ "\" must have the \"" ++ name ++ "\" field of " ++
    getLabelOfFieldType typeId ++ " type"

def requireField (name : String) (typeId : FieldTypeId) (proto : VrmlProto) :
    Except String VrmlProto :=
  if proto.getField name = some typeId then .ok proto
  else .error (illegalField proto name typeId)

/-- `addField`, and `addFloatField` for `SFFLOAT`. The default values are not modelled. -/
def addField (name : String) (typeId : FieldTypeId) (proto : VrmlProto) :
    Except String VrmlProto :=
  match proto.getField name with
  | none => .ok { proto with fields := proto.fields ++ [(name, typeId)] }
  | some typeId' =>
    if typeId' = typeId then .ok proto else .error (illegalField proto name typeId)

def checkHumanoidProto (proto : VrmlProto) : Except String VrmlProto := do
  let proto ← requireField "center" .SFVEC3F proto
  let proto ← requireField "humanoidBody" .MFNODE proto
  let proto ← requireField "rotation" .SFROTATION proto
  let proto ← requireField "translation" .SFVEC3F proto
  let proto ← addField "info" .MFSTRING proto
  let proto ← addField "name" .SFSTRING proto
  let proto ← addField "version" .SFSTRING proto
  let proto ← addField "scaleOrientation" .SFROTATION proto
  addField "scale" .SFVEC3F proto

/-- The check of the field `jointAxis`, which may have two types. -/
def requireJointAxis (proto : VrmlProto) : Except String VrmlProto :=
  match proto.getField "jointAxis" with
  | none => .error "Prototype of Humanoid must have the \"jointAxis\" field"
  | some typeId =>
    if typeId = .SFSTRING ∨ typeId = .SFVEC3F then .ok proto
    else .error
      "The type of \"jointAxis\" field in \"Humanoid\" prototype must be SFString or SFVec3f"

def checkJointProto (proto : VrmlProto) : Except String VrmlProto := do
  let proto ← requireField "center" .SFVEC3F proto
  let proto ← requireField "children" .MFNODE proto
  let proto ← requireField "rotation" .SFROTATION proto
  let proto ← requireField "translation" .SFVEC3F proto
  let proto ← requireField "jointType" .SFSTRING proto
  let proto ← requireField "jointId" .SFINT32 proto
  let proto ← requireJointAxis proto
  let proto ← addField "llimit" .MFFLOAT proto
  let proto ← addField "ulimit" .MFFLOAT proto
  let proto ← addField "lvlimit" .MFFLOAT proto
  let proto ← addField "uvlimit" .MFFLOAT proto
  let proto ← addField "limitOrientation" .SFROTATION proto
  let proto ← addField "name" .SFSTRING proto
  let proto ← addField "gearRatio" .SFFLOAT proto
  let proto ← addField "rotorInertia" .SFFLOAT proto
  let proto ← addField "rotorResistor" .SFFLOAT proto
  let proto ← addField "torqueConst" .SFFLOAT proto
  let proto ← addField "encoderPulse" .SFFLOAT proto
  let proto ← addField "jointValue" .SFFLOAT proto
  addField "scale" .SFVEC3F proto

def checkSegmentProto (proto : VrmlProto) : Except String VrmlProto := do
  let proto ← requireField "centerOfMass" .SFVEC3F proto
  let proto ← requireField "mass" .SFFLOAT proto
  let proto ← requireField "momentsOfInertia" .MFFLOAT proto
  addField "name" .SFSTRING proto

def checkSensorProtoCommon (proto : VrmlProto) : Except String VrmlProto := do
  let proto ← requireField "sensorId" .SFINT32 proto
  let proto ← requireField "translation" .SFVEC3F proto
  requireField "rotation" .SFROTATION proto

def checkHardwareComponentProto (proto : VrmlProto) : Except String VrmlProto := do
  let proto ← requireField "id" .SFINT32 proto
  let proto ← requireField "translation" .SFVEC3F proto
  let proto ← requireField "rotation" .SFROTATION proto
  requireField "url" .SFSTRING proto

def checkExtraJointProto (proto : VrmlProto) : Except String VrmlProto := do
  let proto ← requireField "link1Name" .SFSTRING proto
  let proto ← requireField "link2Name" .SFSTRING proto
  let proto ← requireField "link1LocalPos" .SFVEC3F proto
  let proto ← requireField "link2LocalPos" .SFVEC3F proto
  let proto ← requireField "jointType" .SFSTRING proto
  requireField "jointAxis" .SFVEC3F proto

/-- The PROTOs that are known. -/
inductive ProtoId where
  | HUMANOID
  | JOINT
  | SEGMENT
  | SENSOR
  | HARDWARECOMPONENT
  | EXTRAJOINT
  deriving DecidableEq, Repr

/-- The entry of `protoNameToInfoMap`. -/
def protoNameToInfo : String → Option (ProtoId × (VrmlProto → Except String VrmlProto))
  | "Humanoid" => some (.HUMANOID, checkHumanoidProto)
  | "Joint" => some (.JOINT, checkJointProto)
  | "Segment" => some (.SEGMENT, checkSegmentProto)
  | "ForceSensor" => some (.SENSOR, checkSensorProtoCommon)
  | "Gyro" => some (.SENSOR, checkSensorProtoCommon)
  | "AccelerationSensor" => some (.SENSOR, checkSensorProtoCommon)
  | "VisionSensor" => some (.SENSOR, checkSensorProtoCommon)
  | "RangeSensor" => some (.SENSOR, checkSensorProtoCommon)
  | "HardwareComponent" => some (.HARDWARECOMPONENT, checkHardwareComponentProto)
  | "ExtraJoint" => some (.EXTRAJOINT, checkExtraJointProto)
  | _ => none

/-- The number of a PROTO, `none` for one that is not known. -/
def protoId (protoName : String) : Option ProtoId :=
  (protoNameToInfo protoName).map Prod.fst

/-- What is done at the definition of a PROTO. -/
def checkProto (proto : VrmlProto) : Except String Unit :=
  match protoNameToInfo proto.protoName with
  | some info => (info.2 proto).map fun _ ↦ ()
  | none => .ok ()

/-! ### Extracting the joints -/

/-- A `JointNodeSet`. -/
structure JointNodeSet (K : Type) where
  jointNode : VrmlNode K
  childJointNodeSets : List (JointNodeSet K)
  transforms : List (Matrix44 K)
  segmentNodes : List (VrmlNode K)
  sensorNodes : List (VrmlNode K)
  hwcNodes : List (VrmlNode K)
  lightNodes : List (Matrix44 K × VrmlNode K)

/-- The set of a Joint node of which nothing has been extracted yet. -/
def JointNodeSet.new (jointNode : VrmlNode K) : JointNodeSet K :=
  ⟨jointNode, [], [], [], [], [], []⟩

/-- A `ProtoIdSet`. -/
abbrev ProtoIdSet := ProtoId → Bool

/-- The PROTOs that are accepted below a Joint. -/
def jointAcceptable : ProtoIdSet
  | .JOINT | .SEGMENT | .SENSOR | .HARDWARECOMPONENT => true
  | _ => false

/-- The PROTOs that are accepted below a Segment. -/
def segmentAcceptable : ProtoIdSet
  | .SENSOR => true
  | _ => false

/-- The message about a node that is not accepted. -/
def notInCorrectPlace (protoName : String) : String :=
  protoName ++ " node is not in a correct place."

/-- A set that is being filled, and `numJointNodes`. -/
structure Extraction (K : Type) where
  jointNodeSet : JointNodeSet K
  numJointNodes : ℕ

/-- The extraction below a Joint node, before its children are looked at. -/
def Extraction.start (jointNode : VrmlNode K) (numJointNodes : ℕ) : Extraction K :=
  ⟨.new jointNode, numJointNodes + 1⟩

/-- What `extractChildNodes` does with a light. -/
def Extraction.addLight (s : Extraction K) (T : Matrix44 K) (node : VrmlNode K) : Extraction K :=
  { s with jointNodeSet :=
    { s.jointNodeSet with lightNodes := s.jointNodeSet.lightNodes ++ [(T, node)] } }

@[inherit_doc Extraction.addLight]
def Extraction.addSensor (s : Extraction K) (node : VrmlNode K) : Extraction K :=
  { s with jointNodeSet :=
    { s.jointNodeSet with sensorNodes := s.jointNodeSet.sensorNodes ++ [node] } }

@[inherit_doc Extraction.addLight]
def Extraction.addHardwareComponent (s : Extraction K) (node : VrmlNode K) : Extraction K :=
  { s with jointNodeSet :=
    { s.jointNodeSet with hwcNodes := s.jointNodeSet.hwcNodes ++ [node] } }

@[inherit_doc Extraction.addLight]
def Extraction.addSegment (s : Extraction K) (T : Matrix44 K) (node : VrmlNode K) :
    Extraction K :=
  { s with jointNodeSet :=
    { s.jointNodeSet with
      segmentNodes := s.jointNodeSet.segmentNodes ++ [node]
      transforms := s.jointNodeSet.transforms ++ [T] } }

/-- What `extractChildNodes` does with what `addJointNodeSet` returns for a child. -/
def Extraction.addJoint (s : Extraction K) (child : Extraction K) : Extraction K :=
  ⟨{ s.jointNodeSet with
      childJointNodeSets := s.jointNodeSet.childJointNodeSets ++ [child.jointNodeSet] },
    child.numJointNodes⟩

section Extract

variable [Semiring K] [DecidableEq K]

mutual

/-- The body of the loop of `extractChildNodes`. -/
def extractChildNode : VrmlNode K → ProtoIdSet → Matrix44 K → Extraction K →
    Except String (Extraction K)
  | .group children, acceptable, T, s => extractChildNodes children acceptable T s
  | .transform Tlocal children, acceptable, T, s =>
    extractChildNodes children acceptable (T * Tlocal) s
  | .light defName, _, T, s => .ok (s.addLight T (.light defName))
  | .protoInstance protoName defName children, acceptable, T, s =>
    match protoId protoName with
    | none => extractChildNodes children acceptable T s
    | some id =>
      if !acceptable id then .error (notInCorrectPlace protoName)
      else match id with
        | .JOINT =>
          if T ≠ 1 then .error (notInCorrectPlace protoName)
          -- `addJointNodeSet` of the instance.
          else (extractChildNodes children jointAcceptable 1
            (.start (.protoInstance protoName defName children) s.numJointNodes)).map s.addJoint
        | .SENSOR =>
          if T ≠ 1 then .error (notInCorrectPlace protoName)
          else .ok (s.addSensor (.protoInstance protoName defName children))
        | .HARDWARECOMPONENT =>
          if T ≠ 1 then .error (notInCorrectPlace protoName)
          else .ok (s.addHardwareComponent (.protoInstance protoName defName children))
        | .SEGMENT =>
          extractChildNodes children segmentAcceptable T
            (s.addSegment T (.protoInstance protoName defName children))
        | .HUMANOID | .EXTRAJOINT => .ok s
  | .other, _, _, s => .ok s

/-- `extractChildNodes`. -/
def extractChildNodes : List (VrmlNode K) → ProtoIdSet → Matrix44 K → Extraction K →
    Except String (Extraction K)
  | [], _, _, s => .ok s
  | childNode :: childNodes, acceptable, T, s => do
    let s ← extractChildNode childNode acceptable T s
    extractChildNodes childNodes acceptable T s

end

/-- `addJointNodeSet` of the instance of a Joint with these children. -/
def addJointNodeSet (jointNode : VrmlNode K) (children : List (VrmlNode K)) (numJointNodes : ℕ) :
    Except String (Extraction K) :=
  extractChildNodes children jointAcceptable 1 (.start jointNode numJointNodes)

/-- `extractJointNodes`, of the nodes in the field `humanoidBody`. -/
def extractJointNodes : List (VrmlNode K) → Except String (Extraction K)
  | _ :: _ :: _ => .error
    "The Humanoid node must have a unique Joint node in its \"humanoidBody\" field."
  | [.protoInstance "Joint" defName children] =>
    addJointNodeSet (.protoInstance "Joint" defName children) children 0
  | _ => .error "The Humanoid node does not have a Joint node in its \"humanoidBody\" field."

/-- The loop of `extractHumanoidNode`: the last Humanoid node of the file. The list of the
ExtraJoint nodes, which nothing here reads, is left out. -/
def findHumanoidNode : List (TopNode K) → Option (List (VrmlNode K)) →
    Except String (Option (List (VrmlNode K)))
  | [], humanoidNode => .ok humanoidNode
  | .protoDef proto :: nodes, humanoidNode => do
    checkProto proto
    findHumanoidNode nodes humanoidNode
  | .protoInstance protoName humanoidBody :: nodes, humanoidNode =>
    findHumanoidNode nodes (if protoName = "Humanoid" then some humanoidBody else humanoidNode)
  | .other :: nodes, humanoidNode => findHumanoidNode nodes humanoidNode
  | .illegal fullMessage :: _, _ => .error fullMessage

/-- `loadModelFile`, with `extractHumanoidNode`. -/
def loadModelFile (nodes : List (TopNode K)) : Except String (Extraction K) := do
  let humanoidNode ← findHumanoidNode nodes none
  match humanoidNode with
  | some humanoidBody => extractJointNodes humanoidBody
  | none => .error "Humanoid node is not found"

end Extract

/-! ### The places that are reached -/

/-- The PROTO of an instance, when it is known. -/
def VrmlNode.protoId : VrmlNode K → Option ProtoId
  | .protoInstance protoName _ _ => ModelNodeSet.protoId protoName
  | _ => none

/-- The name of the PROTO of an instance. -/
def VrmlNode.protoName : VrmlNode K → String
  | .protoInstance protoName _ _ => protoName
  | _ => ""

/-- The children of an instance. -/
def VrmlNode.children : VrmlNode K → List (VrmlNode K)
  | .protoInstance _ _ children => children
  | _ => []

/-- A node on the way from a Joint down, when it matters to what is below it. -/
inductive Step (K : Type) where
  | transform (Tlocal : Matrix44 K)
  | segment

/-- A node below a Joint, with the steps from the Joint to it. -/
structure Place (K : Type) where
  steps : List (Step K)
  node : VrmlNode K

mutual

/-- The lights and the instances of known PROTOs from a node on, in the order of the file. Of an
instance only a Segment is looked into. -/
def reach : List (Step K) → VrmlNode K → List (Place K)
  | steps, .group children => reachAll steps children
  | steps, .transform Tlocal children => reachAll (steps ++ [.transform Tlocal]) children
  | steps, .light defName => [⟨steps, .light defName⟩]
  | steps, .protoInstance protoName defName children =>
    match protoId protoName with
    | none => reachAll steps children
    | some .SEGMENT =>
      ⟨steps, .protoInstance protoName defName children⟩ :: reachAll (steps ++ [.segment]) children
    | some _ => [⟨steps, .protoInstance protoName defName children⟩]
  | _, .other => []

@[inherit_doc reach]
def reachAll : List (Step K) → List (VrmlNode K) → List (Place K)
  | _, [] => []
  | steps, node :: nodes => reach steps node ++ reachAll steps nodes

end

/-- The nodes that are reached from places: those below the Joints among them too. -/
inductive Reached : List (Place K) → Place K → Prop
  | here {l : List (Place K)} {p : Place K} : p ∈ l → Reached l p
  | through {l : List (Place K)} {p q : Place K} : q ∈ l → q.node.protoId = some .JOINT →
    Reached (reachAll [] q.node.children) p → Reached l p

/-- The instances of a PROTO among places. -/
def placesOf (id : ProtoId) (l : List (Place K)) : List (Place K) :=
  l.filter fun p ↦ p.node.protoId = some id

/-- The lights among places. -/
def lightsOf (l : List (Place K)) : List (Place K) :=
  l.filter fun p ↦ p.node.protoId = none

theorem Reached.append_iff {l l' : List (Place K)} {p : Place K} :
    Reached (l ++ l') p ↔ Reached l p ∨ Reached l' p := by
  constructor
  · rintro (hp | ⟨hq, hjoint, hp⟩)
    · exact (List.mem_append.1 hp).imp .here .here
    · exact (List.mem_append.1 hq).imp (fun hq ↦ .through hq hjoint hp) fun hq ↦
        .through hq hjoint hp
  · rintro ((hp | ⟨hq, hjoint, hp⟩) | (hp | ⟨hq, hjoint, hp⟩))
    · exact .here (List.mem_append_left _ hp)
    · exact .through (List.mem_append_left _ hq) hjoint hp
    · exact .here (List.mem_append_right _ hp)
    · exact .through (List.mem_append_right _ hq) hjoint hp

theorem not_reached_nil {p : Place K} : ¬ Reached [] p := by
  rintro (hp | ⟨hq, -, -⟩)
  · exact List.not_mem_nil hp
  · exact List.not_mem_nil hq

theorem reached_singleton {p q : Place K} (h : q.node.protoId ≠ some .JOINT) :
    Reached [q] p ↔ p = q := by
  constructor
  · rintro (hp | ⟨hq, hjoint, -⟩)
    · exact List.mem_singleton.1 hp
    · exact absurd (List.mem_singleton.1 hq ▸ hjoint) h
  · rintro rfl
    exact .here (List.mem_singleton_self p)

theorem reached_singleton_joint {p q : Place K} (h : q.node.protoId = some .JOINT) :
    Reached [q] p ↔ p = q ∨ Reached (reachAll [] q.node.children) p := by
  constructor
  · rintro (hp | ⟨hq, -, hp⟩)
    · exact .inl (List.mem_singleton.1 hp)
    · exact .inr (List.mem_singleton.1 hq ▸ hp)
  · rintro (rfl | hp)
    · exact .here (List.mem_singleton_self p)
    · exact .through (List.mem_singleton_self q) h hp

/-! ### What is allowed, and what is extracted -/

section Allowed

variable [Semiring K]

/-- The matrix of a step. -/
def Step.matrix : Step K → Matrix44 K
  | .transform Tlocal => Tlocal
  | .segment => 1

/-- The product of the transforms between the Joint and the place. -/
def Place.transform (p : Place K) : Matrix44 K :=
  (p.steps.map Step.matrix).prod

/-- The node may be where it is. A Segment may have sensors below it and nothing else, and no
transform may move a Joint, a sensor or a hardware component. -/
def Place.Allowed (p : Place K) : Prop :=
  match p.node.protoId with
  | none => True
  | some .JOINT => .segment ∉ p.steps ∧ p.transform = 1
  | some .SEGMENT => .segment ∉ p.steps
  | some .SENSOR => p.transform = 1
  | some .HARDWARECOMPONENT => .segment ∉ p.steps ∧ p.transform = 1
  | some .HUMANOID => False
  | some .EXTRAJOINT => False

/-- The set of a Joint has the nodes in the places `l`. -/
structure Collects (l : List (Place K)) (s : JointNodeSet K) : Prop where
  segmentNodes : s.segmentNodes = (placesOf .SEGMENT l).map Place.node
  transforms : s.transforms = (placesOf .SEGMENT l).map Place.transform
  sensorNodes : s.sensorNodes = (placesOf .SENSOR l).map Place.node
  hwcNodes : s.hwcNodes = (placesOf .HARDWARECOMPONENT l).map Place.node
  lightNodes : s.lightNodes = (lightsOf l).map fun p ↦ (p.transform, p.node)

/-- The tree that is extracted from a Joint node: the set of every Joint has the nodes that are
reached below it. -/
inductive Extracts : VrmlNode K → JointNodeSet K → Prop
  | intro {s : JointNodeSet K} : Collects (reachAll [] s.jointNode.children) s →
    List.Forall₂ Extracts
      ((placesOf .JOINT (reachAll [] s.jointNode.children)).map Place.node) s.childJointNodeSets →
    Extracts s.jointNode s

end Allowed

mutual

/-- The number of joints in a tree. -/
def JointNodeSet.numJoints : JointNodeSet K → ℕ
  | ⟨_, childJointNodeSets, _, _, _, _, _⟩ => numChildJoints childJointNodeSets + 1

/-- The number of joints in trees. -/
def numChildJoints : List (JointNodeSet K) → ℕ
  | [] => 0
  | s :: l => s.numJoints + numChildJoints l

end

theorem numChildJoints_append (l l' : List (JointNodeSet K)) :
    numChildJoints (l ++ l') = numChildJoints l + numChildJoints l' := by
  induction l with
  | nil => rw [List.nil_append, numChildJoints, Nat.zero_add]
  | cons s l ih => rw [List.cons_append, numChildJoints, numChildJoints, ih, Nat.add_assoc]

theorem JointNodeSet.numJoints_eq (s : JointNodeSet K) :
    s.numJoints = numChildJoints s.childJointNodeSets + 1 := by
  obtain ⟨_, _, _, _, _, _, _⟩ := s
  rw [JointNodeSet.numJoints]

mutual

/-- All nodes in a tree. -/
def JointNodeSet.nodes : JointNodeSet K → List (VrmlNode K)
  | ⟨jointNode, childJointNodeSets, _, segmentNodes, sensorNodes, hwcNodes, lightNodes⟩ =>
    jointNode :: (segmentNodes ++ sensorNodes ++ hwcNodes ++ lightNodes.map Prod.snd ++
      childNodes childJointNodeSets)

/-- All nodes in trees. -/
def childNodes : List (JointNodeSet K) → List (VrmlNode K)
  | [] => []
  | s :: l => s.nodes ++ childNodes l

end

theorem JointNodeSet.nodes_eq (s : JointNodeSet K) :
    s.nodes = s.jointNode :: (s.segmentNodes ++ s.sensorNodes ++ s.hwcNodes ++
      s.lightNodes.map Prod.snd ++ childNodes s.childJointNodeSets) := by
  obtain ⟨_, _, _, _, _, _, _⟩ := s
  rw [JointNodeSet.nodes]

mutual

/-- The lights and the instances of known PROTOs in the file from a node on. Of an instance of a
known PROTO, the children are among them when it may be looked into. -/
def VrmlNode.nodes (looksInto : ProtoId → Bool) : VrmlNode K → List (VrmlNode K)
  | .group children => nodesIn looksInto children
  | .transform _ children => nodesIn looksInto children
  | .light defName => [.light defName]
  | .protoInstance protoName defName children =>
    match ModelNodeSet.protoId protoName with
    | none => nodesIn looksInto children
    | some id => .protoInstance protoName defName children ::
      if looksInto id then nodesIn looksInto children else []
  | .other => []

@[inherit_doc VrmlNode.nodes]
def nodesIn (looksInto : ProtoId → Bool) : List (VrmlNode K) → List (VrmlNode K)
  | [] => []
  | node :: nodes => node.nodes looksInto ++ nodesIn looksInto nodes

end

variable {id : ProtoId}

theorem VrmlNode.nodes_eq (looksInto : ProtoId → Bool) {node : VrmlNode K}
    (h : node.protoId = some id) : node.nodes looksInto =
      node :: if looksInto id then nodesIn looksInto node.children else [] := by
  cases node with
  | protoInstance protoName defName children =>
    have hid : ModelNodeSet.protoId protoName = some id := h
    rw [VrmlNode.nodes, hid]
    rfl
  | _ => nomatch h

/-- Joints and Segments are looked into. -/
def isContainer : ProtoId → Bool
  | .JOINT | .SEGMENT => true
  | _ => false

/-! ### The nodes of the places -/

/-- What is in the file at a place that is reached. -/
def Place.contents (p : Place K) : List (VrmlNode K) :=
  if p.node.protoId = some .JOINT then p.node.nodes isContainer else [p.node]

theorem placesOf_append (id : ProtoId) (l l' : List (Place K)) :
    placesOf id (l ++ l') = placesOf id l ++ placesOf id l' :=
  List.filter_append ..

theorem lightsOf_append (l l' : List (Place K)) : lightsOf (l ++ l') = lightsOf l ++ lightsOf l' :=
  List.filter_append ..

variable {p : Place K}

theorem placesOf_singleton_self (h : p.node.protoId = some id) :
    placesOf id [p] = [p] := by
  rw [placesOf, List.filter_cons_of_pos (by simpa using h), List.filter_nil]

theorem placesOf_singleton_of_ne (h : p.node.protoId ≠ some id) :
    placesOf id [p] = [] := by
  rw [placesOf, List.filter_cons_of_neg (by simpa using h), List.filter_nil]

theorem lightsOf_singleton_self (h : p.node.protoId = none) : lightsOf [p] = [p] := by
  rw [lightsOf, List.filter_cons_of_pos (by simpa using h), List.filter_nil]

theorem lightsOf_singleton_of_ne (h : p.node.protoId ≠ none) : lightsOf [p] = [] := by
  rw [lightsOf, List.filter_cons_of_neg (by simpa using h), List.filter_nil]

mutual

theorem flatMap_contents_reach : ∀ (node : VrmlNode K) (steps : List (Step K)),
    (reach steps node).flatMap Place.contents = node.nodes isContainer
  | .group children, steps => by
    rw [reach, VrmlNode.nodes, flatMap_contents_reachAll]
  | .transform Tlocal children, steps => by
    rw [reach, VrmlNode.nodes, flatMap_contents_reachAll]
  | .light defName, steps => by
    rw [reach, VrmlNode.nodes]
    rfl
  | .protoInstance protoName defName children, steps => by
    have ih := flatMap_contents_reachAll children
    rw [reach, VrmlNode.nodes]
    rcases hid : protoId protoName with - | - | - | - | - | - | -
    · exact ih steps
    all_goals
      simp [Place.contents, VrmlNode.protoId, VrmlNode.nodes, hid, isContainer, ih]
  | .other, steps => by
    rw [reach, VrmlNode.nodes]
    rfl

theorem flatMap_contents_reachAll : ∀ (nodes : List (VrmlNode K)) (steps : List (Step K)),
    (reachAll steps nodes).flatMap Place.contents = nodesIn isContainer nodes
  | [], steps => by
    rw [reachAll, nodesIn]
    rfl
  | node :: nodes, steps => by
    rw [reachAll, nodesIn, List.flatMap_append, flatMap_contents_reach node steps,
      flatMap_contents_reachAll nodes steps]

end

/-- The nodes in allowed places, sorted by their kinds. -/
theorem perm_flatMap_contents [Semiring K] {l : List (Place K)} (h : ∀ p ∈ l, p.Allowed) :
    (l.flatMap Place.contents).Perm
      ((placesOf .SEGMENT l).map Place.node ++ (placesOf .SENSOR l).map Place.node ++
        (placesOf .HARDWARECOMPONENT l).map Place.node ++ (lightsOf l).map Place.node ++
          ((placesOf .JOINT l).map Place.node).flatMap (VrmlNode.nodes isContainer)) := by
  induction l with
  | nil => exact .nil
  | cons p l ih =>
    rw [List.forall_mem_cons] at h
    have hsplit (id : ProtoId) : placesOf id (p :: l) = placesOf id [p] ++ placesOf id l :=
      placesOf_append id [p] l
    have hlights : lightsOf (p :: l) = lightsOf [p] ++ lightsOf l := lightsOf_append [p] l
    have ih := ih h.2
    have hp := h.1
    rw [← Multiset.coe_eq_coe] at ih ⊢
    simp only [hsplit, hlights, List.flatMap_cons, List.map_append, List.flatMap_append,
      ← Multiset.coe_add] at ih ⊢
    rw [ih]
    rw [Place.Allowed] at hp
    rcases hid : p.node.protoId with _ | id
    · have hnone (id : ProtoId) : placesOf id [p] = [] :=
        placesOf_singleton_of_ne (by rw [hid]; nofun)
      simp only [Place.contents, hid, reduceCtorEq, if_false, hnone, lightsOf_singleton_self hid,
        List.map_nil, List.flatMap_nil, List.map_singleton, Multiset.coe_nil]
      abel
    · have hlight : lightsOf [p] = [] := lightsOf_singleton_of_ne (by rw [hid]; nofun)
      have hself := placesOf_singleton_self hid
      have hnone (id' : ProtoId) (h : id ≠ id') : placesOf id' [p] = [] :=
        placesOf_singleton_of_ne (by rwa [hid, Ne, Option.some_inj])
      rw [hid] at hp
      cases id with
      | HUMANOID => exact hp.elim
      | EXTRAJOINT => exact hp.elim
      | JOINT =>
        simp only [Place.contents, hid, if_true, hlight, hself, hnone .SEGMENT nofun,
          hnone .SENSOR nofun, hnone .HARDWARECOMPONENT nofun, List.map_nil, List.map_singleton,
          List.flatMap_singleton, Multiset.coe_nil]
        abel
      | _ =>
        simp only [Place.contents, hid, Option.some_inj, reduceCtorEq, if_false, hlight, hself,
          List.map_nil, List.flatMap_nil, List.map_singleton, Multiset.coe_nil, ne_eq,
          not_false_eq_true, hnone]
        abel

/-! ### The extraction -/

section Extraction

variable [Semiring K]

/-- The extraction below a Joint has gone from `s` to `s'` over the places `l`. -/
structure Grows (l : List (Place K)) (s s' : Extraction K) : Prop where
  jointNode : s'.jointNodeSet.jointNode = s.jointNodeSet.jointNode
  segmentNodes : s'.jointNodeSet.segmentNodes =
    s.jointNodeSet.segmentNodes ++ (placesOf .SEGMENT l).map Place.node
  transforms : s'.jointNodeSet.transforms =
    s.jointNodeSet.transforms ++ (placesOf .SEGMENT l).map Place.transform
  sensorNodes : s'.jointNodeSet.sensorNodes =
    s.jointNodeSet.sensorNodes ++ (placesOf .SENSOR l).map Place.node
  hwcNodes : s'.jointNodeSet.hwcNodes =
    s.jointNodeSet.hwcNodes ++ (placesOf .HARDWARECOMPONENT l).map Place.node
  lightNodes : s'.jointNodeSet.lightNodes =
    s.jointNodeSet.lightNodes ++ (lightsOf l).map fun p ↦ (p.transform, p.node)
  joints : ∃ children,
    s'.jointNodeSet.childJointNodeSets = s.jointNodeSet.childJointNodeSets ++ children ∧
      List.Forall₂ (fun node child ↦
          Extracts node child ∧ child.nodes.Perm (node.nodes isContainer))
        ((placesOf .JOINT l).map Place.node) children ∧
      s'.numJointNodes = s.numJointNodes + numChildJoints children

variable {l l' : List (Place K)} {s s' s'' : Extraction K}

theorem Grows.nil (s : Extraction K) : Grows [] s s := by
  refine ⟨rfl, ?_, ?_, ?_, ?_, ?_, [], ?_, .nil, rfl⟩ <;> exact (List.append_nil _).symm

theorem Grows.append (h : Grows l s s') (h' : Grows l' s' s'') : Grows (l ++ l') s s'' := by
  obtain ⟨children, heq, hforall, hnum⟩ := h.joints
  obtain ⟨children', heq', hforall', hnum'⟩ := h'.joints
  refine ⟨h'.jointNode.trans h.jointNode, ?_, ?_, ?_, ?_, ?_, children ++ children', ?_, ?_, ?_⟩
  · rw [h'.segmentNodes, h.segmentNodes, placesOf_append, List.map_append, List.append_assoc]
  · rw [h'.transforms, h.transforms, placesOf_append, List.map_append, List.append_assoc]
  · rw [h'.sensorNodes, h.sensorNodes, placesOf_append, List.map_append, List.append_assoc]
  · rw [h'.hwcNodes, h.hwcNodes, placesOf_append, List.map_append, List.append_assoc]
  · rw [h'.lightNodes, h.lightNodes, lightsOf_append, List.map_append, List.append_assoc]
  · rw [heq', heq, List.append_assoc]
  · rw [placesOf_append, List.map_append]
    exact List.rel_append hforall hforall'
  · rw [hnum', hnum, numChildJoints_append, Nat.add_assoc]

variable {p : Place K}

theorem grows_addLight (s : Extraction K) (h : p.node.protoId = none) :
    Grows [p] s (s.addLight p.transform p.node) := by
  refine ⟨rfl, ?_, ?_, ?_, ?_, ?_, [], ?_⟩ <;>
    simp [placesOf, lightsOf, h, Extraction.addLight, numChildJoints]

theorem grows_addSensor (s : Extraction K) (h : p.node.protoId = some .SENSOR) :
    Grows [p] s (s.addSensor p.node) := by
  refine ⟨rfl, ?_, ?_, ?_, ?_, ?_, [], ?_⟩ <;>
    simp [placesOf, lightsOf, h, Extraction.addSensor, numChildJoints]

theorem grows_addHardwareComponent (s : Extraction K) {p : Place K}
    (h : p.node.protoId = some .HARDWARECOMPONENT) :
    Grows [p] s (s.addHardwareComponent p.node) := by
  refine ⟨rfl, ?_, ?_, ?_, ?_, ?_, [], ?_⟩ <;>
    simp [placesOf, lightsOf, h, Extraction.addHardwareComponent, numChildJoints]

theorem grows_addSegment (s : Extraction K) (h : p.node.protoId = some .SEGMENT) :
    Grows [p] s (s.addSegment p.transform p.node) := by
  refine ⟨rfl, ?_, ?_, ?_, ?_, ?_, [], ?_⟩ <;>
    simp [placesOf, lightsOf, h, Extraction.addSegment, numChildJoints]

omit [Semiring K] in
theorem childNodes_perm {R : VrmlNode K → JointNodeSet K → Prop} {nodes : List (VrmlNode K)}
    {children : List (JointNodeSet K)}
    (h : List.Forall₂ (fun node child ↦ R node child ∧ child.nodes.Perm (node.nodes isContainer))
      nodes children) :
    (childNodes children).Perm (nodes.flatMap (VrmlNode.nodes isContainer)) := by
  induction h with
  | nil =>
    rw [childNodes]
    exact .nil
  | cons h _ ih =>
    rw [childNodes, List.flatMap_cons]
    exact h.2.append ih

/-- The children of a Joint give the set of the Joint. -/
theorem Grows.extracts (node : VrmlNode K) {n : ℕ}
    (h : Grows (reachAll [] node.children) (.start node n) s)
    (hallowed : ∀ p ∈ reachAll [] node.children, p.Allowed) (hid : node.protoId = some .JOINT) :
    (Extracts node s.jointNodeSet ∧ s.jointNodeSet.nodes.Perm (node.nodes isContainer)) ∧
      s.numJointNodes = n + s.jointNodeSet.numJoints := by
  obtain ⟨children, hchildren, hforall, hnum⟩ := h.joints
  have hnode : s.jointNodeSet.jointNode = node := h.jointNode
  have hsets : s.jointNodeSet.childJointNodeSets = children := hchildren
  have hcount : s.numJointNodes = n + 1 + numChildJoints children := hnum
  have hcollects : Collects (reachAll [] node.children) s.jointNodeSet :=
    ⟨h.segmentNodes, h.transforms, h.sensorNodes, h.hwcNodes, h.lightNodes⟩
  refine ⟨⟨?_, ?_⟩, ?_⟩
  · subst hnode
    exact .intro hcollects (hsets ▸ hforall.imp fun _ _ h ↦ h.1)
  · rw [JointNodeSet.nodes_eq, VrmlNode.nodes_eq _ hid, hnode, hsets, hcollects.segmentNodes,
      hcollects.sensorNodes, hcollects.hwcNodes, hcollects.lightNodes, List.map_map]
    refine .cons _ (.trans (.append_left _ (childNodes_perm hforall)) ?_)
    rw [isContainer, if_pos rfl, ← flatMap_contents_reachAll _ []]
    exact (perm_flatMap_contents hallowed).symm
  · rw [hcount, JointNodeSet.numJoints_eq, hsets]
    omega

theorem grows_addJoint (s : Extraction K) {p : Place K} (h : p.node.protoId = some .JOINT)
    {child : Extraction K} (hchild : Extracts p.node child.jointNodeSet ∧
      child.jointNodeSet.nodes.Perm (p.node.nodes isContainer))
    (hnum : child.numJointNodes = s.numJointNodes + child.jointNodeSet.numJoints) :
    Grows [p] s (s.addJoint child) := by
  refine ⟨rfl, ?_, ?_, ?_, ?_, ?_, [child.jointNodeSet], rfl, ?_, ?_⟩
  · simp [placesOf, h, Extraction.addJoint]
  · simp [placesOf, h, Extraction.addJoint]
  · simp [placesOf, h, Extraction.addJoint]
  · simp [placesOf, h, Extraction.addJoint]
  · simp [lightsOf, h, Extraction.addJoint]
  · rw [placesOf_singleton_self h]
    exact .cons hchild .nil
  · rw [numChildJoints, numChildJoints, Nat.add_zero]
    exact hnum

/-- The set of acceptable PROTOs after some steps. -/
def Accepts (steps : List (Step K)) (acceptable : ProtoIdSet) : Prop :=
  ∀ id, acceptable id = true ↔ id = .SENSOR ∨
    Step.segment ∉ steps ∧ (id = .JOINT ∨ id = .SEGMENT ∨ id = .HARDWARECOMPONENT)

section

omit [Semiring K]

theorem accepts_jointAcceptable : Accepts ([] : List (Step K)) jointAcceptable := by
  intro id
  cases id <;> simp [jointAcceptable]

theorem accepts_segmentAcceptable (steps : List (Step K)) :
    Accepts (steps ++ [.segment]) segmentAcceptable := by
  intro id
  cases id <;> simp [segmentAcceptable]

end

variable {acceptable : ProtoIdSet}

omit [Semiring K] in
theorem Accepts.transform {steps : List (Step K)} (h : Accepts steps acceptable)
    (Tlocal : Matrix44 K) : Accepts (steps ++ [.transform Tlocal]) acceptable := by
  intro id
  rw [h id, List.mem_append, List.mem_singleton]
  simp

/-- What is checked at an instance says whether it is allowed. -/
theorem Accepts.allowed_iff {id : ProtoId} (h : Accepts p.steps acceptable)
    (hid : p.node.protoId = some id) :
    p.Allowed ↔ acceptable id = true ∧ (id = .SEGMENT ∨ p.transform = 1) := by
  rw [Place.Allowed, hid, h id]
  cases id <;> simp

/-- An extraction over the places `l` ends with an exception about a place that is not allowed, or
it has gone over them and all are. -/
def Outcome (l : List (Place K)) (s : Extraction K) : Except String (Extraction K) → Prop
  | .error e => ∃ p, Reached l p ∧ ¬ p.Allowed ∧ e = notInCorrectPlace p.node.protoName
  | .ok s' => Grows l s s' ∧ ∀ p, Reached l p → p.Allowed

theorem outcome_error (hp : p ∈ l) (h : ¬ p.Allowed) :
    Outcome l s (.error (notInCorrectPlace p.node.protoName)) :=
  ⟨p, .here hp, h, rfl⟩

theorem outcome_singleton (hid : p.node.protoId ≠ some .JOINT) (hp : p.Allowed) (h : Grows [p] s s')
    : Outcome [p] s (.ok s') := by
  refine ⟨h, fun q hq ↦ ?_⟩
  rwa [(reached_singleton hid).1 hq]

theorem Outcome.append {r : Except String (Extraction K)}
    {f : Extraction K → Except String (Extraction K)} (h : Outcome l s r)
    (hf : ∀ s', Outcome l' s' (f s')) : Outcome (l ++ l') s (r.bind f) := by
  rcases r with e | s'
  · obtain ⟨p, hp, hallowed, he⟩ := h
    exact ⟨p, Reached.append_iff.2 (.inl hp), hallowed, he⟩
  · have h' := hf s'
    show Outcome (l ++ l') s (f s')
    generalize f s' = r at h' ⊢
    rcases r with e | s''
    · obtain ⟨p, hp, hallowed, he⟩ := h'
      exact ⟨p, Reached.append_iff.2 (.inr hp), hallowed, he⟩
    · exact ⟨h.1.append h'.1, fun p hp ↦ (Reached.append_iff.1 hp).elim (h.2 p) (h'.2 p)⟩

/-- The extraction below a Joint, and what its parent does with the result. -/
theorem Outcome.addJoint {r : Except String (Extraction K)} (hid : p.node.protoId = some .JOINT)
    (hp : p.Allowed) (h : Outcome (reachAll [] p.node.children) (.start p.node s.numJointNodes) r) :
    Outcome [p] s (r.map s.addJoint) := by
  rcases r with e | child
  · obtain ⟨q, hq, hallowed, he⟩ := h
    exact ⟨q, (reached_singleton_joint hid).2 (.inr hq), hallowed, he⟩
  · obtain ⟨hchild, hnum⟩ := h.1.extracts _ (fun q hq ↦ h.2 q (.here hq)) hid
    refine ⟨grows_addJoint s hid hchild hnum, fun q hq ↦ ?_⟩
    rcases (reached_singleton_joint hid).1 hq with rfl | hq
    · exact hp
    · exact h.2 q hq

omit [Semiring K] in
theorem mem_reach {node : VrmlNode K} {id : ProtoId} (h : node.protoId = some id)
    (steps : List (Step K)) : ⟨steps, node⟩ ∈ reach steps node := by
  cases node with
  | protoInstance protoName defName children =>
    have hid : protoId protoName = some id := h
    rw [reach, hid]
    cases id <;> exact List.mem_cons_self
  | _ => nomatch h

variable [DecidableEq K]

/-- An instance is refused that is not acceptable, or that a transform moves. -/
theorem extractChildNode_of_refused {protoName : String} {id : ProtoId} {T : Matrix44 K}
    (hid : protoId protoName = some id) (hhumanoid : acceptable .HUMANOID = false)
    (hextraJoint : acceptable .EXTRAJOINT = false)
    (h : acceptable id = true → id ≠ .SEGMENT ∧ T ≠ 1) (defName : String)
    (children : List (VrmlNode K)) (s : Extraction K) :
    extractChildNode (.protoInstance protoName defName children) acceptable T s =
      .error (notInCorrectPlace protoName) := by
  rw [extractChildNode, hid]
  dsimp only
  by_cases hacceptable : acceptable id = true
  · obtain ⟨hsegment, hT⟩ := h hacceptable
    rw [hacceptable, Bool.not_true, if_neg Bool.false_ne_true]
    cases id with
    | HUMANOID => exact absurd hacceptable (hhumanoid ▸ Bool.false_ne_true)
    | EXTRAJOINT => exact absurd hacceptable (hextraJoint ▸ Bool.false_ne_true)
    | SEGMENT => exact absurd rfl hsegment
    | _ => exact if_pos hT
  · rw [Bool.not_eq_true] at hacceptable
    rw [hacceptable, Bool.not_false, if_pos rfl]

mutual

theorem outcome_extractChildNode : ∀ (node : VrmlNode K) {steps : List (Step K)}
    {acceptable : ProtoIdSet} (s : Extraction K), Accepts steps acceptable →
      Outcome (reach steps node) s
        (extractChildNode node acceptable (steps.map Step.matrix).prod s)
  | .group children, steps, acceptable, s, h => by
    rw [reach, extractChildNode]
    exact outcome_extractChildNodes children s h
  | .transform Tlocal children, steps, acceptable, s, h => by
    have hT : (steps.map Step.matrix).prod * Tlocal =
        ((steps ++ [Step.transform Tlocal]).map Step.matrix).prod := by
      rw [List.map_append, List.prod_append, List.map_singleton, List.prod_singleton]
      rfl
    rw [reach, extractChildNode, hT]
    exact outcome_extractChildNodes children s (h.transform Tlocal)
  | .light defName, steps, acceptable, s, h => by
    rw [reach, extractChildNode]
    exact outcome_singleton nofun trivial (grows_addLight s rfl)
  | .protoInstance protoName defName children, steps, acceptable, s, h => by
    have ih := @outcome_extractChildNodes children
    rcases hid : protoId protoName with _ | id
    · rw [reach, extractChildNode, hid]
      exact ih s h
    let p : Place K := ⟨steps, .protoInstance protoName defName children⟩
    have hnode : p.node.protoId = some id := hid
    have hallowed : p.Allowed ↔ acceptable id = true ∧ (id = .SEGMENT ∨ p.transform = 1) :=
      Accepts.allowed_iff h hnode
    by_cases hp : p.Allowed
    · obtain ⟨hacceptable, hT⟩ := hallowed.1 hp
      have hone (hne : id ≠ .SEGMENT) : ¬ (steps.map Step.matrix).prod ≠ 1 :=
        not_not.2 (hT.resolve_left hne)
      rw [reach, extractChildNode, hid]
      dsimp only
      rw [hacceptable, Bool.not_true, if_neg Bool.false_ne_true]
      cases id with
      | HUMANOID => exact absurd hacceptable (by rw [h]; simp)
      | EXTRAJOINT => exact absurd hacceptable (by rw [h]; simp)
      | JOINT =>
        have hchildren : Outcome (reachAll [] children) (.start p.node s.numJointNodes)
            (extractChildNodes children jointAcceptable 1 (.start p.node s.numJointNodes)) :=
          ih _ accepts_jointAcceptable
        dsimp only
        rw [if_neg (hone nofun)]
        exact Outcome.addJoint (p := p) hnode hp hchildren
      | SENSOR =>
        dsimp only
        rw [if_neg (hone nofun)]
        exact outcome_singleton (by rw [hnode]; nofun) hp (grows_addSensor s hnode)
      | HARDWARECOMPONENT =>
        dsimp only
        rw [if_neg (hone nofun)]
        exact outcome_singleton (by rw [hnode]; nofun) hp (grows_addHardwareComponent s hnode)
      | SEGMENT =>
        have hT' : ((steps ++ [Step.segment]).map Step.matrix).prod =
            (steps.map Step.matrix).prod := by
          rw [List.map_append, List.prod_append, List.map_singleton, List.prod_singleton]
          exact mul_one _
        have hsegment := outcome_singleton (by rw [hnode]; nofun) hp (grows_addSegment s hnode)
        exact hsegment.append fun s' ↦ hT' ▸ ih s' (accepts_segmentAcceptable steps)
    · have hrefused := extractChildNode_of_refused (T := p.transform) hid
        (by rw [← Bool.not_eq_true, h]; simp) (by rw [← Bool.not_eq_true, h]; simp)
        (fun hacceptable ↦ not_or.1 fun hT ↦ hp (hallowed.2 ⟨hacceptable, hT⟩))
        defName children s
      exact hrefused ▸ outcome_error (mem_reach hnode steps) hp
  | .other, steps, acceptable, s, h => by
    rw [reach, extractChildNode]
    exact ⟨.nil s, fun p hp ↦ absurd hp not_reached_nil⟩

theorem outcome_extractChildNodes : ∀ (nodes : List (VrmlNode K)) {steps : List (Step K)}
    {acceptable : ProtoIdSet} (s : Extraction K), Accepts steps acceptable →
      Outcome (reachAll steps nodes) s
        (extractChildNodes nodes acceptable (steps.map Step.matrix).prod s)
  | [], steps, acceptable, s, h => by
    rw [reachAll, extractChildNodes]
    exact ⟨.nil s, fun p hp ↦ absurd hp not_reached_nil⟩
  | node :: nodes, steps, acceptable, s, h => by
    rw [reachAll, extractChildNodes]
    exact (outcome_extractChildNode node s h).append fun s' ↦
      outcome_extractChildNodes nodes s' h

end

/-- The extraction below a Joint node. -/
theorem outcome_addJointNodeSet (jointNode : VrmlNode K) (numJointNodes : ℕ) :
    Outcome (reachAll [] jointNode.children) (.start jointNode numJointNodes)
      (addJointNodeSet jointNode jointNode.children numJointNodes) :=
  outcome_extractChildNodes _ _ accepts_jointAcceptable

end Extraction

/-! ### The file -/

/-- The field `humanoidBody`, of a Humanoid node. -/
def TopNode.humanoidBody? : TopNode K → Option (List (VrmlNode K))
  | .protoInstance protoName humanoidBody =>
    if protoName = "Humanoid" then some humanoidBody else none
  | _ => none

/-- The last Humanoid node of a file, as its field `humanoidBody`. -/
def lastHumanoid (nodes : List (TopNode K)) : Option (List (VrmlNode K)) :=
  (nodes.filterMap TopNode.humanoidBody?).getLast?

/-- The reasons for which a file is refused, with the messages. -/
inductive Refused [Semiring K] (nodes : List (TopNode K)) : String → Prop
  | illegal {e : String} : TopNode.illegal e ∈ nodes → Refused nodes e
  | proto {proto : VrmlProto} {e : String} : TopNode.protoDef proto ∈ nodes →
    checkProto proto = .error e → Refused nodes e
  | noHumanoid : lastHumanoid nodes = none → Refused nodes "Humanoid node is not found"
  | notUnique {humanoidBody : List (VrmlNode K)} : lastHumanoid nodes = some humanoidBody →
    1 < humanoidBody.length → Refused nodes
      "The Humanoid node must have a unique Joint node in its \"humanoidBody\" field."
  | noJoint {humanoidBody : List (VrmlNode K)} : lastHumanoid nodes = some humanoidBody →
    (∀ defName children, .protoInstance "Joint" defName children ∉ humanoidBody) →
    Refused nodes "The Humanoid node does not have a Joint node in its \"humanoidBody\" field."
  | misplaced {defName : String} {children : List (VrmlNode K)} {p : Place K} :
    lastHumanoid nodes = some [.protoInstance "Joint" defName children] →
    Reached (reachAll [] children) p → ¬ p.Allowed →
    Refused nodes (notInCorrectPlace p.node.protoName)

/-- The loop finds the last Humanoid node, unless a node before the end is refused. -/
theorem findHumanoidNode_cases (nodes : List (TopNode K))
    (humanoidNode : Option (List (VrmlNode K))) :
    (∃ e, findHumanoidNode nodes humanoidNode = .error e ∧
      (TopNode.illegal e ∈ nodes ∨
        ∃ proto, TopNode.protoDef proto ∈ nodes ∧ checkProto proto = .error e)) ∨
    findHumanoidNode nodes humanoidNode = .ok ((lastHumanoid nodes).or humanoidNode) := by
  induction nodes generalizing humanoidNode with
  | nil => exact .inr rfl
  | cons node nodes ih =>
    have hmono : ∀ {e}, (TopNode.illegal e ∈ nodes ∨
        ∃ proto, TopNode.protoDef proto ∈ nodes ∧ checkProto proto = .error e) →
      (TopNode.illegal e ∈ node :: nodes ∨
        ∃ proto, TopNode.protoDef proto ∈ node :: nodes ∧ checkProto proto = .error e) :=
      fun h ↦ h.imp (List.mem_cons_of_mem _) fun ⟨proto, h, he⟩ ↦
        ⟨proto, List.mem_cons_of_mem _ h, he⟩
    cases node with
    | protoDef proto =>
      rw [findHumanoidNode]
      rcases hcheck : checkProto proto with e | u
      · exact .inl ⟨e, rfl, .inr ⟨proto, List.mem_cons_self, hcheck⟩⟩
      · exact (ih humanoidNode).imp_left fun ⟨e, he, h⟩ ↦ ⟨e, he, hmono h⟩
    | protoInstance protoName humanoidBody =>
      rw [findHumanoidNode]
      refine (ih _).imp (fun ⟨e, he, h⟩ ↦ ⟨e, he, hmono h⟩) fun h ↦ h.trans (congrArg _ ?_)
      by_cases hname : protoName = "Humanoid"
      · rw [if_pos hname, lastHumanoid, lastHumanoid, List.filterMap_cons, TopNode.humanoidBody?,
          if_pos hname, List.getLast?_cons]
        cases (nodes.filterMap TopNode.humanoidBody?).getLast? <;> rfl
      · rw [if_neg hname, lastHumanoid, lastHumanoid, List.filterMap_cons, TopNode.humanoidBody?,
          if_neg hname]
    | other =>
      rw [findHumanoidNode]
      exact (ih humanoidNode).imp_left fun ⟨e, he, h⟩ ↦ ⟨e, he, hmono h⟩
    | illegal fullMessage => exact .inl ⟨fullMessage, rfl, .inl List.mem_cons_self⟩

variable [Semiring K] [DecidableEq K]

/-- The joints are extracted from a field `humanoidBody` that is one Joint node. -/
theorem extractJointNodes_cases (humanoidBody : List (VrmlNode K)) :
    (1 < humanoidBody.length ∧ extractJointNodes humanoidBody = .error
      "The Humanoid node must have a unique Joint node in its \"humanoidBody\" field.") ∨
    ((∀ defName children, .protoInstance "Joint" defName children ∉ humanoidBody) ∧
      extractJointNodes humanoidBody = .error
        "The Humanoid node does not have a Joint node in its \"humanoidBody\" field.") ∨
    ∃ defName children, humanoidBody = [.protoInstance "Joint" defName children] ∧
      extractJointNodes humanoidBody =
        addJointNodeSet (.protoInstance "Joint" defName children) children 0 := by
  unfold extractJointNodes
  split
  · exact .inl ⟨by simp, rfl⟩
  · exact .inr (.inr ⟨_, _, rfl, rfl⟩)
  · next hunique hjoint =>
    refine .inr (.inl ⟨fun defName children hmem ↦ ?_, rfl⟩)
    rcases humanoidBody with _ | ⟨node, _ | ⟨node', nodes⟩⟩
    · exact List.not_mem_nil hmem
    · exact hjoint _ _ (List.singleton_inj.2 (List.mem_singleton.1 hmem).symm)
    · exact hunique _ _ _ rfl

/-- A file is refused, for one of the reasons, or its joint tree is returned. Then the root is the
one node in the field `humanoidBody` of the last Humanoid node, every node that is reached is
allowed where it is, and the set of every Joint has the nodes that are reached below it, in the
order of the file and with the products of the transforms between them. The tree has the nodes of
the file that are not below a sensor or a hardware component, each of them once. -/
theorem loadModelFile_cases (nodes : List (TopNode K)) :
    (∃ e, loadModelFile nodes = .error e ∧ Refused nodes e) ∨
    ∃ s defName children, loadModelFile nodes = .ok s ∧
      lastHumanoid nodes = some [.protoInstance "Joint" defName children] ∧
      (∀ p, Reached (reachAll [] children) p → p.Allowed) ∧
      Extracts (.protoInstance "Joint" defName children) s.jointNodeSet ∧
      s.jointNodeSet.nodes.Perm
        (VrmlNode.nodes isContainer (.protoInstance "Joint" defName children)) ∧
      s.numJointNodes = s.jointNodeSet.numJoints := by
  rw [loadModelFile]
  rcases findHumanoidNode_cases nodes none with ⟨e, he, hbad⟩ | hfind
  · refine .inl ⟨e, by rw [he]; rfl, ?_⟩
    exact hbad.elim .illegal fun ⟨_, hproto, hcheck⟩ ↦ .proto hproto hcheck
  rw [hfind, Option.or_none]
  rcases hlast : lastHumanoid nodes with _ | humanoidBody
  · exact .inl ⟨_, rfl, .noHumanoid hlast⟩
  rcases extractJointNodes_cases humanoidBody with
    ⟨hlength, hextract⟩ | ⟨hjoint, hextract⟩ | ⟨defName, children, rfl, hextract⟩
  · exact .inl ⟨_, hextract, .notUnique hlast hlength⟩
  · exact .inl ⟨_, hextract, .noJoint hlast hjoint⟩
  have houtcome : Outcome (reachAll [] children) _ (addJointNodeSet _ children 0) :=
    outcome_addJointNodeSet (.protoInstance "Joint" defName children) 0
  rcases hr : addJointNodeSet (.protoInstance "Joint" defName children) children 0 with e | s
  · rw [hr] at houtcome
    obtain ⟨p, hp, hallowed, rfl⟩ := houtcome
    exact .inl ⟨_, hextract.trans hr, .misplaced hlast hp hallowed⟩
  · rw [hr] at houtcome
    obtain ⟨hgrows, hallowed⟩ := houtcome
    obtain ⟨⟨hextracts, hperm⟩, hnum⟩ := Grows.extracts (.protoInstance "Joint" defName children)
      hgrows (fun p hp ↦ hallowed p (.here hp)) rfl
    exact .inr ⟨s, defName, children, hextract.trans hr, rfl, hallowed, hextracts, hperm,
      hnum.trans (Nat.zero_add _)⟩

/-- A Joint below a vision sensor is not found: the file has two Joints and the tree has one. -/
theorem not_keepsEveryNode_jointBelowSensor :
    ¬ ∀ (nodes : List (TopNode ℚ)) (s : Extraction ℚ) (humanoidBody : List (VrmlNode ℚ)),
      loadModelFile nodes = .ok s → lastHumanoid nodes = some humanoidBody →
        ∀ node ∈ nodesIn (fun _ ↦ true) humanoidBody, node ∈ s.jointNodeSet.nodes := by
  intro h
  let hidden : VrmlNode ℚ := .protoInstance "Joint" "HIDDEN" []
  let camera : VrmlNode ℚ := .protoInstance "VisionSensor" "CAMERA" [hidden]
  let root : VrmlNode ℚ := .protoInstance "Joint" "ROOT" [camera]
  let set : JointNodeSet ℚ := ⟨root, [], [], [], [camera], [], []⟩
  have hload : loadModelFile [.protoInstance "Humanoid" [root]] = .ok ⟨set, 1⟩ := by
    simp [loadModelFile, findHumanoidNode, extractJointNodes, addJointNodeSet, extractChildNodes,
      extractChildNode, protoId, protoNameToInfo, jointAcceptable, Extraction.addSensor,
      Extraction.start, JointNodeSet.new, bind, Except.bind, root, camera, set]
  have hmem : hidden ∈ nodesIn (fun _ ↦ true) [root] := by
    simp [nodesIn, VrmlNode.nodes, protoId, protoNameToInfo, root, camera, hidden]
  have hnodes := h _ _ _ hload rfl hidden hmem
  simp [JointNodeSet.nodes, childNodes, root, camera, hidden, set] at hnodes

end OpenHRP.ModelNodeSet
