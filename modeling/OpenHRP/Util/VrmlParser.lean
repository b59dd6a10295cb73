import OpenHRP.Foundations.StoppingRuns
import OpenHRP.Model.Link
import OpenHRP.Util.VrmlNodes

/-!
# The VRML parser

`VrmlParser` reads the nodes of a text with an `EasyScanner`. The text between the braces of a PROTO
definition gets a scanner of its own, which is put back to its head and read whenever the PROTO is
instantiated; a parser has these scanners and the one of the file. The instances whose bodies are
being read are a stack, and the scanner that is read is that of the innermost one.

A parse may stop (`Stop`): an exception is thrown, or it does what has no defined meaning, or it
meets the nodes of another file. Loops stop when they take more turns than there are characters
left, and `readNode` calls itself no deeper than that either; how deep instances of PROTOs may be
nested is a parameter. Both limits are the model's own.
-/

namespace OpenHRP.Vrml

open EasyScanner Stoppable

/-! ### Symbols -/

/-- The words that `setSymbols` registers. Their ids are the positions in the list. -/
def symbolWords : List String :=
  ["TRUE", "FALSE", "NULL",
    "SFInt32", "MFInt32", "SFFloat", "MFFloat", "SFVec2f", "MFVec2f", "SFVec3f", "MFVec3f",
    "SFRotation", "MFRotation", "SFTime", "MFTime", "SFColor", "MFColor", "SFString", "MFString",
    "SFNode", "MFNode", "SFBool", "SFImage",
    "PROTO", "Inline", "Background", "NavigationInfo", "Viewpoint", "Group", "Transform", "Shape",
    "Appearance", "Material", "ImageTexture", "TextureTransform", "Box", "Cone", "Cylinder",
    "Sphere", "Text", "FontStyle", "IndexedLineSet", "IndexedFaceSet", "Color", "Coordinate",
    "TextureCoordinate", "Normal", "CylinderSensor", "PointSet", "PixelTexture", "MovieTexture",
    "ElevationGrid", "Extrusion", "Switch", "LOD", "Collision", "Anchor", "Fog", "Billboard",
    "WorldInfo", "PointLight", "DirectionalLight", "SpotLight", "AudioClip", "Sound",
    "ColorInterpolator", "CoordinateInterpolator", "OrientationInterpolator", "NormalInterpolator",
    "PositionInterpolator", "ScalarInterpolator", "PlaneSensor", "ProximitySensor", "SphereSensor",
    "TimeSensor", "TouchSensor", "VisibilitySensor",
    "IS", "url", "groundAngle", "groundColor", "skyAngle", "skyColor", "backUrl", "bottomUrl",
    "frontUrl", "leftUrl", "rightUrl", "topUrl", "avatarSize", "headlight", "speed", "type",
    "visibilityLimit", "fieldOfView", "jump", "orientation", "position", "description", "children",
    "addChildren", "removeChildren", "bboxCenter", "bboxSize", "center", "rotation", "scale",
    "scaleOrientation", "translation", "appearance", "geometry", "material", "texture",
    "textureTransform", "ambientIntensity", "diffuseColor", "emissiveColor", "shininess",
    "specularColor", "transparency", "direction", "repeatS", "repeatT", "size", "bottom",
    "bottomRadius", "height", "side", "radius", "top", "string", "fontStyle", "length", "maxExtent",
    "family", "horizontal", "justify", "language", "leftToRight", "spacing", "style", "topToBottom",
    "color", "coord", "colorIndex", "colorPerVertex", "coordIndex", "ccw", "convex", "solid",
    "creaseAngle", "normalIndex", "normal", "normalPerVertex", "texCoordIndex", "texCoord", "point",
    "vector", "autoOffset", "diskAngle", "enabled", "maxAngle", "minAngle", "offset", "image",
    "xDimension", "zDimension", "xSpacing", "zSpacing", "crossSection", "spine", "beginCap",
    "endCap", "choice", "whichChoice", "collide", "proxy", "parameter", "visibilityRange",
    "fogType", "axisOfRotation", "title", "info", "location", "on", "intensity", "attenuation",
    "beamWidth", "cutOffAngle",
    "field", "exposedField", "eventIn", "eventOut", "DEF", "USE", "ROUTE", "Script", "EXTERNPROTO"]

/-- The symbols with their ids, which are not zero. -/
def symbols : List (String × ℤ) :=
  symbolWords.zipIdx.map fun p ↦ (p.1, (p.2 + 1 : ℕ))

/-- The id of a symbol. -/
def symbolOf (word : String) : ℤ :=
  (symbols.lookup word).getD 0

/-! ### The parser -/

/-- The loops of the parser. -/
inductive Loop where
  | skippedNode
  | protoFields
  | protoBody
  | nodeFields
  | instanceFields
  | values
  | nodes
  | readNode
  deriving DecidableEq, Repr

/-- Why a parse stops. -/
inductive Stop where
  /-- An `EasyScanner::Exception`. -/
  | exception (message : String) (lineNumber : ℤ)
  /-- The scanner leaves its buffer, or a value is read that has another type or is not there. -/
  | undefined
  /-- The files of an `Inline` node are to be read. -/
  | inlined (urls : List Text)
  /-- A loop takes more turns than there are characters. -/
  | endless (loop : Loop)
  /-- PROTO instances are nested deeper than the limit. -/
  | tooDeep
  /-- A PROTO is instantiated while its body is being read. -/
  | reentered
  deriving DecidableEq, Repr

/-- A `VrmlProto`, and the number of the line on which its body starts. -/
structure Proto (K : Type) where
  protoName : Text
  fields : List (Text × VariantField K)
  lineNumberOffset : ℤ

/-- A `VrmlProtoInstance` whose body is being read. -/
structure ProtoInstance (K : Type) where
  proto : ℕ
  fields : List (Text × VariantField K)

/-- The members of a `VrmlParserImpl`. The scanner with the number 0 reads the file, and the one
with the number `n + 1` reads the body of the PROTO with the number `n`. -/
structure Parser (K : Type) where
  scanners : ℕ → Scanner K
  protos : List (Proto K)
  protoMap : List (Text × ℕ)
  defNodeMap : List (Text × NodePtr)
  nodes : List (Node K)
  instances : List (ProtoInstance K)
  protoInstanceActualNodeExtractionMode : Bool

/-- A computation of the parser. -/
abbrev ParseM (K α : Type) := Stoppable Stop (Parser K) α

namespace Parser

variable {K : Type} (s : Parser K)

/-- The number of the scanner that is read. -/
def current : ℕ :=
  match s.instances with
  | [] => 0
  | i :: _ => i.proto + 1

/-- `scanner`. -/
def scanner : Scanner K :=
  s.scanners s.current

/-- How many characters are left. -/
def size : ℕ :=
  s.scanner.text.length

def setScanner (t : Scanner K) : Parser K :=
  { s with scanners := Function.update s.scanners s.current t }

@[simp] theorem current_setScanner (t : Scanner K) : (s.setScanner t).current = s.current := rfl

@[simp] theorem instances_setScanner (t : Scanner K) :
    (s.setScanner t).instances = s.instances := rfl

@[simp] theorem scanner_setScanner (t : Scanner K) : (s.setScanner t).scanner = t := by
  rw [scanner, current_setScanner]
  exact Function.update_self (s.current) t s.scanners

@[simp] theorem setScanner_setScanner (t u : Scanner K) :
    (s.setScanner t).setScanner u = s.setScanner u := by
  simp [setScanner, current]

@[simp] theorem setScanner_scanner : s.setScanner s.scanner = s := by
  simp [setScanner, scanner]

end Parser

section Basics

variable {K : Type}

/-- An operation of the scanner. -/
def scan {α : Type} (f : Scanner K → Option (α × Scanner K)) : ParseM K α := fun s ↦
  match f s.scanner with
  | none => .error .undefined
  | some r => .ok (r.1, s.setScanner r.2)

theorem scan_of_eq_some {α : Type} {f : Scanner K → Option (α × Scanner K)} {s : Parser K} {a : α}
    {t : Scanner K} (h : f s.scanner = some (a, t)) : scan f s = .ok (a, s.setScanner t) := by
  rw [scan, h]

def getScanner : ParseM K (Scanner K) := fun s ↦ .ok (s.scanner, s)

/-- `throwException`. -/
def throwException {α : Type} (message : String) : ParseM K α := fun s ↦
  .error (.exception message s.scanner.lineNumber)

/-- What `readIntEx`, `readWordEx` and so on have in common: a member of the scanner after an
operation that has to succeed. -/
def expect {α : Type} (read : Scanner K → Option (Bool × Scanner K)) (message : String)
    (result : Scanner K → α) : ParseM K α := do
  if ← scan read then
    let t ← getScanner
    pure (result t)
  else throwException message

def readIntEx (message : String) : ParseM K ℤ :=
  expect EasyScanner.readInt message Scanner.intValue

def readDoubleEx [Field K] (message : String) : ParseM K (SFFloat K) :=
  expect EasyScanner.readDouble message Scanner.doubleValue

def readCharEx (chara : Char) (message : String) : ParseM K Unit :=
  expect (readCharOf chara) message fun _ ↦ ()

def readWordEx (message : String) : ParseM K Text :=
  expect readWord message Scanner.stringValue

def readStringEx (message : String) : ParseM K Text :=
  expect (readString ',') message Scanner.stringValue

def readQuotedStringEx (message : String) : ParseM K Text :=
  expect (readQuotedString false) message Scanner.stringValue

def readSymbolEx (message : String) : ParseM K ℤ :=
  expect readSymbol message Scanner.symbolValue

/-- A node is created. -/
def newNode (kind : NodeKind K) : ParseM K NodePtr := fun s ↦
  .ok (s.nodes.length, { s with nodes := s.nodes ++ [⟨kind, []⟩] })

/-- `node->defName = defName`. -/
def setDefName (node : NodePtr) (defName : Text) : ParseM K Unit := fun s ↦
  .ok ((), { s with nodes := s.nodes.modify node fun n ↦ { n with defName := defName } })

/-- The field of a map, or an undetermined one that is inserted. -/
def fieldOf (fields : List (Text × VariantField K)) (name : Text) : VariantField K :=
  (fields.lookup name).getD ⟨.UNDETERMINED_FIELD_TYPE, .none⟩

/-- Setting the field of a map. -/
def assignField (fields : List (Text × VariantField K)) (name : Text) (field : VariantField K) :
    List (Text × VariantField K) :=
  if (fields.lookup name).isSome then
    fields.map fun p ↦ if p.1 = name then (name, field) else p
  else fields ++ [(name, field)]

end Basics

/-! ### Values -/

section Values

variable {K : Type}

/-- `readProtoField`. -/
def readProtoField (fieldTypeId : FieldTypeId) : ParseM K (VariantField K) := do
  let s ← get
  match s.instances with
  | [] => throwException "cannot use proto field value here"
  | currentProtoInstance :: _ =>
    let name ← readWordEx "illegal field"
    match currentProtoInstance.fields.lookup name with
    | none =>
      throwException ("This field(" ++ String.ofList name ++ ") does not exist in proto node")
    | some field =>
      if field.typeId ≠ fieldTypeId then throwException "Unmatched field type"
      else pure field

/-- A value is that of a field of the PROTO instance, or it is read. -/
def readOrIs {α : Type} (fieldTypeId : FieldTypeId) (get : Value K → Option α) (read : ParseM K α) :
    ParseM K α := do
  if ← scan (readSymbolOf (symbolOf "IS")) then
    let field ← readProtoField fieldTypeId
    match get field.value with
    | some v => pure v
    | none => stop .undefined
  else read

/-- A turn of the loop that reads the values in brackets. -/
def bracketTurn {α : Type} (read : ParseM K α) (values : List α) :
    ParseM K (List α ⊕ List α) := do
  if ← scan (readCharOf ']') then pure (.inr values)
  else
    let v ← read
    pure (.inl (values ++ [v]))

/-- One value, or several in brackets. -/
def readValues {α : Type} (read : ParseM K α) : ParseM K (List α) := do
  if ← scan (readCharOf '[') then
    loop Parser.size (.endless .values) (bracketTurn read) []
  else
    let v ← read
    pure [v]

def readSFInt32 : ParseM K ℤ :=
  readOrIs .SFINT32 (fun | .sfInt32 v => some v | _ => none) (readIntEx "illegal int value")

def readMFInt32 : ParseM K (List ℤ) :=
  readOrIs .MFINT32 (fun | .mfInt32 v => some v | _ => none) (readValues readSFInt32)

def readSFString : ParseM K Text :=
  readOrIs .SFSTRING (fun | .sfString v => some v | _ => none)
    (readQuotedStringEx "illegal string")

def readMFString : ParseM K (List Text) :=
  readOrIs .MFSTRING (fun | .mfString v => some v | _ => none) (readValues readSFString)

def readSFBool : ParseM K Bool :=
  readOrIs .SFBOOL (fun | .sfBool v => some v | _ => none) do
    let symbol ← readSymbolEx "no bool value"
    if symbol = symbolOf "TRUE" then pure true
    else if symbol = symbolOf "FALSE" then pure false
    else throwException "no bool value"

/-- The components of a pixel, from the highest byte on. -/
def pixelComponents (comps : ℕ) (pixelValue : ℤ) : List ℤ :=
  (List.range comps).map fun i ↦ pixelValue / 2 ^ (8 * (comps - 1 - i)) % 256

/-- The loops over the pixels of an image. -/
def readPixels (comps : ℕ) : ℕ → ParseM K (List ℤ)
  | 0 => pure []
  | n + 1 => do
    let pixelValue ← readSFInt32
    let pixels ← readPixels comps n
    pure (pixelComponents comps pixelValue ++ pixels)

def readSFImage : ParseM K SFImage :=
  readOrIs .SFIMAGE (fun | .sfImage v => some v | _ => none) do
    let width ← readSFInt32
    let height ← readSFInt32
    let numComponents ← readSFInt32
    let pixels ← readPixels numComponents.toNat (height.toNat * width.toNat)
    pure ⟨width, height, numComponents, pixels⟩

section Numbers

variable [Field K]

def readSFFloat : ParseM K (SFFloat K) :=
  readOrIs .SFFLOAT (fun | .sfFloat v => some v | _ => none) (readDoubleEx "illegal float value")

def readMFFloat : ParseM K (List (SFFloat K)) :=
  readOrIs .MFFLOAT (fun | .mfFloat v => some v | _ => none) (readValues readSFFloat)

def readSFTime : ParseM K (SFFloat K) :=
  readOrIs .SFTIME (fun | .sfFloat v => some v | _ => none) (readDoubleEx "illegal time value")

def readSFVec2f : ParseM K (SFVec2f K) :=
  readOrIs .SFVEC2F (fun | .sfVec2f v => some v | _ => none) do
    let x ← readSFFloat
    let y ← readSFFloat
    pure (x, y)

def readMFVec2f : ParseM K (List (SFVec2f K)) :=
  readOrIs .MFVEC2F (fun | .mfVec2f v => some v | _ => none) (readValues readSFVec2f)

def readSFVec3f : ParseM K (SFVec3f K) :=
  readOrIs .SFVEC3F (fun | .sfVec3f v => some v | _ => none) do
    let x ← readSFFloat
    let y ← readSFFloat
    let z ← readSFFloat
    pure (x, y, z)

def readMFVec3f : ParseM K (List (SFVec3f K)) :=
  readOrIs .MFVEC3F (fun | .mfVec3f v => some v | _ => none) (readValues readSFVec3f)

def readSFColor : ParseM K (SFVec3f K) :=
  readOrIs .SFCOLOR (fun | .sfVec3f v => some v | _ => none) readSFVec3f

def readMFColor : ParseM K (List (SFVec3f K)) :=
  readOrIs .MFCOLOR (fun | .mfVec3f v => some v | _ => none) readMFVec3f

/-- The axis of a rotation is normalised. A comparison with NaN fails. -/
def normalizeAxis [LinearOrder K] [CMath K] (x y z angle : SFFloat K) : ParseM K (SFRotation K) :=
  match x, y, z with
  | some x, some y, some z =>
    let len := CMath.sqrt (x * x + y * y + z * z)
    if max len (-len) < ((10 ^ 6 : ℕ) : K)⁻¹ then throwException "Rotation axis is zero vector"
    else pure (some (x / len), some (y / len), some (z / len), angle)
  | _, _, _ => pure (none, none, none, angle)

def readSFRotation [LinearOrder K] [CMath K] : ParseM K (SFRotation K) :=
  readOrIs .SFROTATION (fun | .sfRotation v => some v | _ => none) do
    let x ← readSFFloat
    let y ← readSFFloat
    let z ← readSFFloat
    let angle ← readSFFloat
    normalizeAxis x y z angle

def readMFRotation [LinearOrder K] [CMath K] : ParseM K (List (SFRotation K)) :=
  readOrIs .MFROTATION (fun | .mfRotation v => some v | _ => none) (readValues readSFRotation)

end Numbers

end Values

/-! ### Skipping -/

section Skipping

variable {K : Type}

/-- A turn of the loops that skip a node: a quoted string or a character is read, and the closing
character ends the loop. -/
def skipTurn (close : Char) (message : String) (_ : Unit) : ParseM K (Unit ⊕ Unit) := do
  if ← scan (readQuotedString false) then pure (.inl ())
  else
    let c ← scan peekChar
    if c = close then pure (.inr ())
    else if ← scan readChar then pure (.inl ())
    else throwException message

/-- The loop that skips up to a closing character. -/
def skipTo (close : Char) (message : String) : ParseM K Unit :=
  loop Parser.size (.endless .skippedNode) (skipTurn close message) ()

def skipUnsupportedNode (nodeTypeName : String) : ParseM K NodePtr := do
  skipTo '}' "Node is not closed."
  newNode (.unsupported nodeTypeName)

def skipScriptNode : ParseM K Unit := do
  skipTo '}' "Script is not closed."
  let _ ← scan readChar
  pure ()

def skipExternProto : ParseM K Unit := do
  skipTo ']' "EXTERNPROTO is not closed."
  let _ ← scan readChar
  let _ ← readSFString
  pure ()

end Skipping

/-! ### Nodes -/

section Nodes

variable {K : Type} [Field K] [LinearOrder K] [CMath K]

section Fields

variable (readNode : NodeCategory → ParseM K SFNode)

def readSFNode (nodeCategory : NodeCategory) : ParseM K SFNode :=
  readOrIs .SFNODE (fun | .sfNode v => some v | _ => none) do
    if ← scan (readSymbolOf (symbolOf "NULL")) then pure none
    else readNode nodeCategory

/-- A turn of the loop that reads the nodes in brackets. -/
def nodeTurn (nodeCategory : NodeCategory) (nodes : List SFNode) :
    ParseM K (List SFNode ⊕ List SFNode) := do
  let sfnode ← readSFNode readNode nodeCategory
  let nodes := if sfnode.isSome then nodes ++ [sfnode] else nodes
  if ← scan (readCharOf ']') then pure (.inr nodes)
  else if sfnode.isNone then throwException "syntax error"
  else pure (.inl nodes)

def readMFNode (nodeCategory : NodeCategory) : ParseM K (List SFNode) :=
  readOrIs .MFNODE (fun | .mfNode v => some v | _ => none) do
    if ← scan (readCharOf '[') then
      loop Parser.size (.endless .nodes) (nodeTurn readNode nodeCategory) []
    else
      let sfnode ← readSFNode readNode nodeCategory
      pure [sfnode]

/-- The value that a function reads. -/
def readField : FieldReader → ParseM K (Value K)
  | .readSFBool => .sfBool <$> readSFBool
  | .readSFInt32 => .sfInt32 <$> readSFInt32
  | .readMFInt32 => .mfInt32 <$> readMFInt32
  | .readSFFloat => .sfFloat <$> readSFFloat
  | .readMFFloat => .mfFloat <$> readMFFloat
  | .readSFVec2f => .sfVec2f <$> readSFVec2f
  | .readMFVec2f => .mfVec2f <$> readMFVec2f
  | .readSFVec3f => .sfVec3f <$> readSFVec3f
  | .readMFVec3f => .mfVec3f <$> readMFVec3f
  | .readSFColor => .sfVec3f <$> readSFColor
  | .readMFColor => .mfVec3f <$> readMFColor
  | .readSFRotation => .sfRotation <$> readSFRotation
  | .readMFRotation => .mfRotation <$> readMFRotation
  | .readSFString => .sfString <$> readSFString
  | .readMFString => .mfString <$> readMFString
  | .readSFTime => .sfFloat <$> readSFTime
  | .readSFImage => .sfImage <$> readSFImage
  | .readSFNode nodeCategory => .sfNode <$> readSFNode readNode nodeCategory
  | .readMFNode nodeCategory => .mfNode <$> readMFNode readNode nodeCategory

/-- A turn of the loop that reads the fields of a node. -/
def fieldTurn (reader : NodeReader) (fields : List (String × Value K)) :
    ParseM K (List (String × Value K) ⊕ List (String × Value K)) := do
  if ← scan readSymbol then
    let t ← getScanner
    match reader.fields.find? fun f ↦ symbolOf f.1 = t.symbolValue with
    | some (name, read) =>
      let v ← readField readNode read
      let fields := if name ∈ reader.dropped then fields else fields ++ [(name, v)]
      pure (if reader.isLoop then .inl fields else .inr fields)
    | none => throwException "Undefined field"
  else pure (.inr fields)

/-- The node that a function such as `readGroupNode` reads. -/
def readFields (reader : NodeReader) : ParseM K NodePtr := do
  let fields ← loop Parser.size (.endless .nodeFields) (fieldTurn readNode reader) []
  newNode (.specific reader.typeName fields)

/-- The node is checked for its category. -/
def checkCategory (categorySet : List NodeCategory) (nodeCategory : NodeCategory)
    (nodeTypeName : Text) (node : NodePtr) : ParseM K NodePtr :=
  if isCategoryOf categorySet nodeCategory then pure node
  else throwException ("A " ++ String.ofList nodeTypeName ++ " node is put in a illegal place")

def readSpecificNode (nodeCategory : NodeCategory) (symbol : ℤ) (nodeTypeName : Text) :
    ParseM K NodePtr :=
  match nodeReaders.find? fun r ↦ symbolOf r.typeName = symbol with
  | some reader => do
    let node ← readFields readNode reader
    checkCategory reader.categorySet nodeCategory nodeTypeName node
  | none =>
    match unsupportedNodes.find? fun word ↦ symbolOf word = symbol with
    | some word => do
      let node ← skipUnsupportedNode word
      checkCategory unsupportedCategories nodeCategory nodeTypeName node
    | none =>
      throwException ("Node type \"" ++ String.ofList nodeTypeName ++ "\" is not supported")

/-! ### PROTO definitions -/

/-- The types that a field of a PROTO can have: their symbols, and how their values are read. -/
def protoFieldTypes : List (String × FieldTypeId × FieldReader) :=
  [("SFInt32", .SFINT32, .readSFInt32), ("MFInt32", .MFINT32, .readMFInt32),
    ("SFFloat", .SFFLOAT, .readSFFloat), ("MFFloat", .MFFLOAT, .readMFFloat),
    ("SFVec3f", .SFVEC3F, .readSFVec3f), ("MFVec3f", .MFVEC3F, .readMFVec3f),
    ("SFColor", .SFCOLOR, .readSFColor), ("MFColor", .MFCOLOR, .readMFColor),
    ("SFString", .SFSTRING, .readSFString), ("MFString", .MFSTRING, .readMFString),
    ("SFRotation", .SFROTATION, .readSFRotation), ("MFRotation", .MFROTATION, .readMFRotation),
    ("SFBool", .SFBOOL, .readSFBool), ("SFNode", .SFNODE, .readSFNode .ANY_NODE),
    ("MFNode", .MFNODE, .readMFNode .ANY_NODE), ("SFImage", .SFIMAGE, .readSFImage)]

/-- The field of a PROTO for which a value is read. `setType` can be called once: a value of another
type would be written into the object of the first type. -/
def readProtoFieldValue (fields : List (Text × VariantField K)) (field_symbol : ℤ)
    (field_name : Text) : ParseM K (List (Text × VariantField K)) :=
  match protoFieldTypes.find? fun t ↦ symbolOf t.1 = field_symbol with
  | some (_, typeId, read) => do
    let v ← readField readNode read
    let field := fieldOf fields field_name
    if field.typeId = .UNDETERMINED_FIELD_TYPE || field.typeId = typeId then
      pure (assignField fields field_name ⟨typeId, v⟩)
    else stop .undefined
  | none => throwException "illegal field type"

/-- The field of a PROTO for an event. -/
def protoEventField (fields : List (Text × VariantField K)) (field_symbol : ℤ) (field_name : Text) :
    List (Text × VariantField K) :=
  let field := fieldOf fields field_name
  match protoFieldTypes.find? fun t ↦ symbolOf t.1 = field_symbol with
  | some (_, typeId, _) =>
    if field.typeId = .UNDETERMINED_FIELD_TYPE then
      assignField fields field_name ⟨typeId, typeId.unset⟩
    else fields
  | none => assignField fields field_name field

/-- A turn of the loop over the fields of a PROTO. -/
def protoFieldTurn (fields : List (Text × VariantField K)) :
    ParseM K (List (Text × VariantField K) ⊕ List (Text × VariantField K)) := do
  if ← scan (readCharOf ']') then pure (.inr fields)
  else
    let event_type ← readSymbolEx "illegal field event type"
    let field_symbol ← readSymbolEx "illegal field type"
    let field_name ← readWordEx "syntax error 4"
    if event_type = symbolOf "field" || event_type = symbolOf "exposedField" then
      let fields ← readProtoFieldValue readNode fields field_symbol field_name
      pure (.inl fields)
    else if event_type = symbolOf "eventIn" || event_type = symbolOf "eventOut" then
      pure (.inl (protoEventField fields field_symbol field_name))
    else throwException "illegal field event type"

/-- A turn of the loop that looks for the end of the body of a PROTO. -/
def braceTurn (brace_level : ℕ) : ParseM K (ℕ ⊕ Unit) := do
  let token ← scan readToken
  if token = .none then throwException "syntax error 5"
  else if token = .siglum then
    let t ← getScanner
    if t.charValue = '{' then pure (.inl (brace_level + 1))
    else if t.charValue = '}' then
      if brace_level - 1 = 0 then pure (.inr ()) else pure (.inl (brace_level - 1))
    else pure (.inl brace_level)
  else pure (.inl brace_level)

/-- The end of `defineProto`: the PROTO gets a scanner for its body, and it is inserted under its
name if no other one has the name. -/
def addProto (proto_name : Text) (fields : List (Text × VariantField K)) (begin_ : Text) :
    ParseM K NodePtr := fun s ↦
  let t := s.scanner
  let body := begin_.take (begin_.length - t.text.length - 1)
  let number := s.protos.length
  let entityScanner : Scanner K := ⟨t.settings, body, body, 0, none, [], '\x00', 0, t.lineNumber⟩
  newNode (.proto number)
    { s with
      scanners := Function.update s.scanners (number + 1) entityScanner
      protos := s.protos ++ [⟨proto_name, fields, t.lineNumber⟩]
      protoMap :=
        if (s.protoMap.lookup proto_name).isSome then s.protoMap
        else s.protoMap ++ [(proto_name, number)] }

/-- The part of `defineProto` in front of the body: the name of the PROTO and its fields. -/
def readProtoHead : ParseM K (Text × List (Text × VariantField K)) := do
  let proto_name ← readWordEx "illegal PROTO name"
  readCharEx '[' "syntax error 3"
  let fields ← loop Parser.size (.endless .protoFields) (protoFieldTurn readNode) []
  readCharEx '{' "A PROTO definition has no entity"
  pure (proto_name, fields)

/-- The loop over the body of a PROTO, behind its first brace. -/
def readProtoBody : ParseM K Unit :=
  loop Parser.size (.endless .protoBody) braceTurn 1

def defineProto : ParseM K NodePtr := do
  let head ← readProtoHead readNode
  let t ← getScanner
  readProtoBody
  addProto head.1 head.2 t.text

/-! ### PROTO instances -/

/-- How the field of a PROTO instance is read. Colors are read as vectors. -/
def instanceFieldReader : FieldTypeId → Option FieldReader
  | .SFINT32 => some .readSFInt32
  | .MFINT32 => some .readMFInt32
  | .SFFLOAT => some .readSFFloat
  | .MFFLOAT => some .readMFFloat
  | .SFVEC2F => some .readSFVec2f
  | .MFVEC2F => some .readMFVec2f
  | .SFVEC3F => some .readSFVec3f
  | .MFVEC3F => some .readMFVec3f
  | .SFCOLOR => some .readSFVec3f
  | .MFCOLOR => some .readMFVec3f
  | .SFSTRING => some .readSFString
  | .MFSTRING => some .readMFString
  | .SFROTATION => some .readSFRotation
  | .MFROTATION => some .readMFRotation
  | .SFBOOL => some .readSFBool
  | .SFNODE => some (.readSFNode .ANY_NODE)
  | .MFNODE => some (.readMFNode .ANY_NODE)
  | .SFIMAGE => some .readSFImage
  | _ => none

/-- A turn of the loop over the fields of a PROTO instance. -/
def instanceFieldTurn (fields : List (Text × VariantField K)) :
    ParseM K (List (Text × VariantField K) ⊕ List (Text × VariantField K)) := do
  if ← scan readWord then
    let t ← getScanner
    match fields.lookup t.stringValue with
    | some field =>
      match instanceFieldReader field.typeId with
      | some read =>
        let v ← readField readNode read
        pure (.inl (assignField fields t.stringValue ⟨field.typeId, v⟩))
      | none => pure (.inl fields)
    | none => throwException "undefined field"
  else pure (.inr fields)

variable (evalProtoInstance : ProtoInstance K → NodeCategory → ParseM K SFNode)

def readProtoInstanceNode (proto_name : Text) (nodeCategory : NodeCategory) : ParseM K NodePtr := do
  let s ← get
  match s.protoMap.lookup proto_name with
  | none => throwException "undefined node"
  | some number =>
    let fields ← loop Parser.size (.endless .instanceFields) (instanceFieldTurn readNode)
      ((s.protos[number]?).elim [] Proto.fields)
    if s.protoInstanceActualNodeExtractionMode then
      let actualNode ← evalProtoInstance ⟨number, fields⟩ nodeCategory
      newNode (.protoInstance number fields actualNode)
    else newNode (.protoInstance number fields none)

/-! ### Reading a node -/

/-- `readInlineNode`. The files that it names are not read. -/
def readInlineNode : ParseM K SFNode := do
  let _ ← scan (readCharOf '{')
  if ← scan readSymbol then
    let t ← getScanner
    if t.symbolValue = symbolOf "url" then
      let inlineUrls ← readMFString
      readCharEx '}' "syntax error 2"
      if inlineUrls = [] then some <$> newNode .inlined else stop (.inlined inlineUrls)
    else pure none
  else pure none

/-- `USE`. -/
def readUse : ParseM K SFNode := do
  let _ ← scan (readString ',')
  let t ← getScanner
  let s ← get
  match s.defNodeMap.lookup t.stringValue with
  | some node => pure (some node)
  | none =>
    throwException ("A node \"" ++ String.ofList t.stringValue ++
      "\" specified by the USE directive does not exist")

/-- `ROUTE`, which is skipped. -/
def skipRoute : ParseM K Unit := do
  let _ ← scan (readString ',')
  if ← scan (readStringOf ['T', 'O']) then
    let _ ← scan (readString ',')
    pure ()
  else throwException "Illegal ROUTE (without TO)"

/-- The node gets its name, under which it is inserted if no other one has the name. -/
def defNode (def_name : Text) (node : NodePtr) : ParseM K Unit :=
  if def_name ≠ [] then do
    modify fun s ↦ { s with
      defNodeMap :=
        if (s.defNodeMap.lookup def_name).isSome then s.defNodeMap
        else s.defNodeMap ++ [(def_name, node)] }
    setDefName node def_name
  else pure ()

/-- The part of `readNode` from the opening brace on. -/
def readEntity (nodeCategory : NodeCategory) (def_name : Text) (symbol : ℤ) (nodeTypeName : Text) :
    ParseM K SFNode := do
  readCharEx '{' ("The entity of a " ++ String.ofList nodeTypeName ++
    " node does not correctly begin with '\x7b'")
  let node ←
    if symbol ≠ 0 then readSpecificNode readNode nodeCategory symbol nodeTypeName
    else readProtoInstanceNode readNode evalProtoInstance nodeTypeName nodeCategory
  readCharEx '}' ("A " ++ String.ofList nodeTypeName ++
    " node is not correctly closed with '\x7d'")
  defNode def_name node
  pure (some node)

/-- The part of `readNode` behind the first word. -/
def readNodeOf (nodeCategory : NodeCategory) (symbol : ℤ) (nodeTypeName : Text) :
    ParseM K SFNode := do
  if symbol = 0 then readEntity readNode evalProtoInstance nodeCategory [] symbol nodeTypeName
  else if symbol = symbolOf "Inline" then readInlineNode
  else if symbol = symbolOf "PROTO" then
    if nodeCategory = .TOP_NODE then some <$> defineProto readNode
    else throwException "PROTO node cannot be defined here"
  else if symbol = symbolOf "USE" then readUse
  else if symbol = symbolOf "ROUTE" then
    skipRoute
    readNode nodeCategory
  else if symbol = symbolOf "Script" then
    skipScriptNode
    readNode nodeCategory
  else if symbol = symbolOf "EXTERNPROTO" then
    skipExternProto
    readNode nodeCategory
  else if symbol = symbolOf "DEF" then
    let def_name ← readStringEx "Illegal DEF name"
    let _ ← scan readWord
    let t ← getScanner
    readEntity readNode evalProtoInstance nodeCategory def_name (t.getSymbolID t.stringValue)
      t.stringValue
  else readEntity readNode evalProtoInstance nodeCategory [] symbol nodeTypeName

end Fields

section Instances

variable (evalProtoInstance : ProtoInstance K → NodeCategory → ParseM K SFNode)

/-- `readNode`. Whenever it calls itself, it has read a word, so that the number of characters
bounds the depth of its calls. -/
def readNode : ℕ → NodeCategory → ParseM K SFNode
  | 0, _ => stop (.endless .readNode)
  | fuel + 1, nodeCategory => do
    if ← scan readWord then
      let t ← getScanner
      readNodeOf (readNode fuel) evalProtoInstance nodeCategory (t.getSymbolID t.stringValue)
        t.stringValue
    else pure none

/-- The scanner of the body is put back to its head, and it is the one that is read. -/
def enterProto (protoInstance : ProtoInstance K) : ParseM K Unit := fun s ↦
  let t := s.scanners (protoInstance.proto + 1)
  let offset := (s.protos[protoInstance.proto]?).elim 0 Proto.lineNumberOffset
  .ok ((), { s with
    scanners := Function.update s.scanners (protoInstance.proto + 1)
      (t.moveToLine t.textBuf offset)
    instances := protoInstance :: s.instances })

/-- The scanner and the instance are again those from before. -/
def leaveProto : ParseM K Unit := fun s ↦
  .ok ((), { s with instances := s.instances.tail })

/-- `evalProtoInstance`, with the function that evaluates the instances in the body. -/
def evalBody (protoInstance : ProtoInstance K) (nodeCategory : NodeCategory) : ParseM K SFNode := do
  enterProto protoInstance
  let s ← get
  let node ← readNode evalProtoInstance (s.size + 1) nodeCategory
  match node with
  | some p => setDefName p []
  | none => pure ()
  leaveProto
  pure node

end Instances

/-- `evalProtoInstance`, for instances that are nested no deeper than the limit. -/
def evalProtoInstance : ℕ → ProtoInstance K → NodeCategory → ParseM K SFNode
  | 0 => fun _ _ ↦ stop .tooDeep
  | depth + 1 => evalBody (evalProtoInstance depth)

/-- `VrmlParser::readNode`. -/
def readTopNode (depth : ℕ) : ParseM K SFNode := do
  let s ← get
  readNode (evalProtoInstance depth) (s.size + 1) .TOP_NODE

/-- `while(VrmlNodePtr node = parser.readNode())`, for a number of turns. -/
def readTopNodes (depth : ℕ) : ℕ → ParseM K (List NodePtr)
  | 0 => pure []
  | n + 1 => do
    match ← readTopNode depth with
    | some node =>
      let nodes ← readTopNodes depth n
      pure (node :: nodes)
    | none => pure []

end Nodes

/-! ### Loading -/

theorem hash_ne_nul : some '#' ≠ some '\x00' := by
  decide

/-- The settings with which nodes are read. -/
def vrmlSettings : Settings where
  commentChar := some '#'
  quoteChar := some '"'
  isLineOriented := false
  whiteSpaceChars := [' ', '\t', ',']
  symbols := symbols
  commentChar_ne := hash_ne_nul

/-- The settings with which the header is checked. -/
def headerSettings : Settings where
  commentChar := none
  quoteChar := none
  isLineOriented := true
  whiteSpaceChars := [' ', '\t']
  symbols := symbols
  commentChar_ne := by decide

/-- `load`, of a file with the given text. -/
def load {K : Type} (text : Text) : Option (Parser K) :=
  let t : Scanner K := ⟨headerSettings, text, text, 0, none, [], '\x00', 0, 1⟩
  (readStringOf "#VRML V2.0".toList t).map fun r ↦
    let t := if r.1 then (skipLine r.2).2 else r.2
    let idle : Scanner K := ⟨vrmlSettings, [], [], 0, none, [], '\x00', 0, 1⟩
    { scanners := Function.update (fun _ ↦ idle) 0 { t with settings := vrmlSettings }
      protos := []
      protoMap := []
      defNodeMap := []
      nodes := []
      instances := []
      protoInstanceActualNodeExtractionMode := true }

end OpenHRP.Vrml
