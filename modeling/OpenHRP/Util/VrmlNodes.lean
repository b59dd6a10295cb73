import OpenHRP.Util.EasyScanner

/-!
# VRML nodes

The nodes that the VRML parser builds, the values of their fields, and what it knows about the
fields of each type of node: their names, in the words of the text, and how they are read.

A node is created on a heap and a pointer to it is its number there. Of a node, the fields that were
read are kept in the order in which they were read; the defaults of the others are not modelled.
-/

namespace OpenHRP.Vrml

open EasyScanner

/-! ### Categories -/

/-- `VrmlNodeCategory`. -/
inductive NodeCategory where
  | ANY_NODE
  | PROTO_DEF_NODE
  | PROTO_INSTANCE_NODE
  | TOP_NODE
  | BINDABLE_NODE
  | GROUPING_NODE
  | CHILD_NODE
  | APPEARANCE_NODE
  | MATERIAL_NODE
  | TEXTURE_NODE
  | TEXTURE_TRANSFORM_NODE
  | SHAPE_NODE
  | GEOMETRY_NODE
  | COORDINATE_NODE
  | COLOR_NODE
  | NORMAL_NODE
  | TEXTURE_COORDINATE_NODE
  | FONT_STYLE_NODE
  | SENSOR_NODE
  | INLINE_NODE
  | LIGHT_NODE
  deriving DecidableEq, Repr

/-- `isCategoryOf`, of a node with a set of categories. -/
def isCategoryOf (categorySet : List NodeCategory) (category : NodeCategory) : Bool :=
  category = .ANY_NODE || category ∈ categorySet

/-! ### Values -/

/-- `VrmlFieldTypeId`. -/
inductive FieldTypeId where
  | UNDETERMINED_FIELD_TYPE
  | SFBOOL
  | SFINT32
  | MFINT32
  | SFFLOAT
  | MFFLOAT
  | SFVEC2F
  | MFVEC2F
  | SFVEC3F
  | MFVEC3F
  | SFROTATION
  | MFROTATION
  | SFTIME
  | MFTIME
  | SFCOLOR
  | MFCOLOR
  | SFSTRING
  | MFSTRING
  | SFNODE
  | MFNODE
  | SFIMAGE
  deriving DecidableEq, Repr

/-- A pointer to a node. -/
abbrev NodePtr := ℕ

/-- `SFFloat`, which may be NaN. -/
abbrev SFFloat (K : Type) := Option K

abbrev SFVec2f (K : Type) := SFFloat K × SFFloat K

abbrev SFVec3f (K : Type) := SFFloat K × SFFloat K × SFFloat K

abbrev SFRotation (K : Type) := SFFloat K × SFFloat K × SFFloat K × SFFloat K

/-- `SFNode`, which may be null. -/
abbrev SFNode := Option NodePtr

structure SFImage where
  width : ℤ
  height : ℤ
  numComponents : ℤ
  pixels : List ℤ

/-- The value of a field. Colors are vectors, and times are numbers. There is no value in the union
of a `VrmlVariantField` to which nothing has been assigned. -/
inductive Value (K : Type) where
  | none
  | sfBool (v : Bool)
  | sfInt32 (v : ℤ)
  | mfInt32 (v : List ℤ)
  | sfFloat (v : SFFloat K)
  | mfFloat (v : List (SFFloat K))
  | sfVec2f (v : SFVec2f K)
  | mfVec2f (v : List (SFVec2f K))
  | sfVec3f (v : SFVec3f K)
  | mfVec3f (v : List (SFVec3f K))
  | sfRotation (v : SFRotation K)
  | mfRotation (v : List (SFRotation K))
  | sfString (v : Text)
  | mfString (v : List Text)
  | sfNode (v : SFNode)
  | mfNode (v : List SFNode)
  | sfImage (v : SFImage)

/-- `VrmlVariantField`. -/
structure VariantField (K : Type) where
  typeId : FieldTypeId
  value : Value K

/-- The value after `setType`: the objects that the field points to are empty, and the members of
the union are not initialised. -/
def FieldTypeId.unset {K : Type} : FieldTypeId → Value K
  | MFINT32 => .mfInt32 []
  | MFFLOAT => .mfFloat []
  | MFVEC2F => .mfVec2f []
  | MFVEC3F => .mfVec3f []
  | MFCOLOR => .mfVec3f []
  | MFROTATION => .mfRotation []
  | MFTIME => .mfFloat []
  | SFSTRING => .sfString []
  | MFSTRING => .mfString []
  | SFNODE => .sfNode .none
  | MFNODE => .mfNode []
  | _ => .none

/-- What a node is. -/
inductive NodeKind (K : Type) where
  | specific (typeName : String) (fields : List (String × Value K))
  | unsupported (nodeTypeName : String)
  | inlined
  | proto (number : ℕ)
  | protoInstance (number : ℕ) (fields : List (Text × VariantField K)) (actualNode : SFNode)

/-- A node on the heap. -/
structure Node (K : Type) where
  kind : NodeKind K
  defName : Text

/-! ### How fields are read -/

/-- The function that reads a field. Nodes are read with the category they are to have. -/
inductive FieldReader where
  | readSFBool
  | readSFInt32
  | readMFInt32
  | readSFFloat
  | readMFFloat
  | readSFVec2f
  | readMFVec2f
  | readSFVec3f
  | readMFVec3f
  | readSFColor
  | readMFColor
  | readSFRotation
  | readMFRotation
  | readSFString
  | readMFString
  | readSFTime
  | readSFImage
  | readSFNode (nodeCategory : NodeCategory)
  | readMFNode (nodeCategory : NodeCategory)
  deriving DecidableEq, Repr

/-- A function such as `readGroupNode`: which fields it reads, in the words of the text, and how. It
reads fields for as long as there are any, or one at most, and drops what some of them say. -/
structure NodeReader where
  typeName : String
  categorySet : List NodeCategory
  fields : List (String × FieldReader)
  dropped : List String := []
  isLoop : Bool

def readViewpointNode : NodeReader where
  typeName := "Viewpoint"
  categorySet := [.TOP_NODE, .BINDABLE_NODE, .CHILD_NODE]
  fields := [("fieldOfView", .readSFFloat), ("jump", .readSFBool), ("orientation", .readSFRotation),
    ("position", .readSFVec3f), ("description", .readSFString)]
  isLoop := true

def readNavigationInfoNode : NodeReader where
  typeName := "NavigationInfo"
  categorySet := [.TOP_NODE, .BINDABLE_NODE, .CHILD_NODE]
  fields := [("avatarSize", .readMFFloat), ("headlight", .readSFBool), ("speed", .readSFFloat),
    ("type", .readMFString), ("visibilityLimit", .readSFFloat)]
  isLoop := true

def readBackgroundNode : NodeReader where
  typeName := "Background"
  categorySet := [.TOP_NODE, .BINDABLE_NODE, .CHILD_NODE]
  fields := [("groundAngle", .readMFFloat), ("groundColor", .readMFColor),
    ("skyAngle", .readMFFloat), ("skyColor", .readMFColor), ("backUrl", .readMFString),
    ("bottomUrl", .readMFString), ("frontUrl", .readMFString), ("leftUrl", .readMFString),
    ("rightUrl", .readMFString), ("topUrl", .readMFString)]
  isLoop := true

/-- The categories of an `AbstractVrmlGroup`. -/
def groupCategories : List NodeCategory :=
  [.TOP_NODE, .GROUPING_NODE, .CHILD_NODE]

def readGroupNode : NodeReader where
  typeName := "Group"
  categorySet := groupCategories
  fields := [("bboxCenter", .readSFVec3f), ("bboxSize", .readSFVec3f),
    ("children", .readMFNode .CHILD_NODE), ("addChildren", .readMFNode .CHILD_NODE),
    ("removeChildren", .readMFNode .CHILD_NODE)]
  dropped := ["addChildren", "removeChildren"]
  isLoop := true

def readTransformNode : NodeReader where
  typeName := "Transform"
  categorySet := groupCategories
  fields := [("center", .readSFVec3f), ("rotation", .readSFRotation), ("scale", .readSFVec3f),
    ("scaleOrientation", .readSFRotation), ("translation", .readSFVec3f),
    ("bboxCenter", .readSFVec3f), ("bboxSize", .readSFVec3f), ("children", .readMFNode .CHILD_NODE)]
  isLoop := true

def readShapeNode : NodeReader where
  typeName := "Shape"
  categorySet := [.TOP_NODE, .CHILD_NODE, .SHAPE_NODE]
  fields := [("appearance", .readSFNode .APPEARANCE_NODE), ("geometry", .readSFNode .GEOMETRY_NODE)]
  isLoop := true

def readCylinderSensorNode : NodeReader where
  typeName := "CylinderSensor"
  categorySet := [.CHILD_NODE, .SENSOR_NODE]
  fields := [("autoOffset", .readSFBool), ("diskAngle", .readSFFloat), ("enabled", .readSFBool),
    ("maxAngle", .readSFFloat), ("minAngle", .readSFFloat), ("offset", .readSFFloat)]
  isLoop := true

def readPointSetNode : NodeReader where
  typeName := "PointSet"
  categorySet := [.GEOMETRY_NODE]
  fields := [("coord", .readSFNode .COORDINATE_NODE), ("color", .readSFNode .COLOR_NODE)]
  isLoop := true

def readPixelTextureNode : NodeReader where
  typeName := "PixelTexture"
  categorySet := [.TEXTURE_NODE]
  fields := [("image", .readSFImage), ("repeatS", .readSFBool), ("repeatT", .readSFBool)]
  isLoop := true

/-- The words `loop`, `startTime` and `stopTime` are not registered as symbols. -/
def readMovieTextureNode : NodeReader where
  typeName := "MovieTexture"
  categorySet := [.TEXTURE_NODE]
  fields := [("url", .readMFString), ("loop", .readSFBool), ("speed", .readSFFloat),
    ("startTime", .readSFTime), ("stopTime", .readSFTime), ("repeatS", .readSFBool),
    ("repeatT", .readSFBool)]
  isLoop := true

def readElevationGridNode : NodeReader where
  typeName := "ElevationGrid"
  categorySet := [.GEOMETRY_NODE]
  fields := [("xDimension", .readSFInt32), ("zDimension", .readSFInt32), ("xSpacing", .readSFFloat),
    ("zSpacing", .readSFFloat), ("height", .readMFFloat), ("ccw", .readSFBool),
    ("colorPerVertex", .readSFBool), ("creaseAngle", .readSFFloat),
    ("normalPerVertex", .readSFBool), ("solid", .readSFBool), ("color", .readSFNode .COLOR_NODE),
    ("normal", .readSFNode .NORMAL_NODE), ("texCoord", .readSFNode .TEXTURE_COORDINATE_NODE)]
  isLoop := true

def readExtrusionNode : NodeReader where
  typeName := "Extrusion"
  categorySet := [.GEOMETRY_NODE]
  fields := [("crossSection", .readMFVec2f), ("spine", .readMFVec3f), ("scale", .readMFVec2f),
    ("orientation", .readMFRotation), ("beginCap", .readSFBool), ("endCap", .readSFBool),
    ("solid", .readSFBool), ("ccw", .readSFBool), ("convex", .readSFBool),
    ("creaseAngle", .readSFFloat)]
  isLoop := true

def readSwitchNode : NodeReader where
  typeName := "Switch"
  categorySet := groupCategories
  fields := [("choice", .readMFNode .CHILD_NODE), ("whichChoice", .readSFInt32)]
  isLoop := true

/-- The words `range` and `level` are not registered as symbols. -/
def readLODNode : NodeReader where
  typeName := "LOD"
  categorySet := groupCategories
  fields := [("range", .readMFFloat), ("center", .readSFVec3f), ("level", .readMFNode .ANY_NODE)]
  isLoop := true

def readCollisionNode : NodeReader where
  typeName := "Collision"
  categorySet := groupCategories
  fields := [("collide", .readSFBool), ("children", .readMFNode .CHILD_NODE),
    ("proxy", .readSFNode .SHAPE_NODE), ("bboxCenter", .readSFVec3f), ("bboxSize", .readSFVec3f)]
  isLoop := true

def readAnchorNode : NodeReader where
  typeName := "Anchor"
  categorySet := groupCategories
  fields := [("children", .readMFNode .CHILD_NODE), ("description", .readSFString),
    ("parameter", .readMFString), ("url", .readMFString), ("bboxCenter", .readSFVec3f),
    ("bboxSize", .readSFVec3f)]
  isLoop := true

/-- A `VrmlFog` is of no category. -/
def readFogNode : NodeReader where
  typeName := "Fog"
  categorySet := []
  fields := [("color", .readSFColor), ("visibilityRange", .readSFFloat), ("fogType", .readSFString)]
  isLoop := true

def readBillboardNode : NodeReader where
  typeName := "Billboard"
  categorySet := groupCategories
  fields := [("axisOfRotation", .readSFVec3f), ("children", .readMFNode .CHILD_NODE),
    ("bboxCenter", .readSFVec3f), ("bboxSize", .readSFVec3f)]
  isLoop := true

def readWorldInfoNode : NodeReader where
  typeName := "WorldInfo"
  categorySet := [.TOP_NODE]
  fields := [("title", .readSFString), ("info", .readMFString)]
  isLoop := true

def readPointLightNode : NodeReader where
  typeName := "PointLight"
  categorySet := [.TOP_NODE, .CHILD_NODE, .LIGHT_NODE]
  fields := [("location", .readSFVec3f), ("on", .readSFBool), ("intensity", .readSFFloat),
    ("color", .readSFColor), ("radius", .readSFFloat), ("ambientIntensity", .readSFFloat),
    ("attenuation", .readSFVec3f)]
  isLoop := true

def readDirectionalLightNode : NodeReader where
  typeName := "DirectionalLight"
  categorySet := [.TOP_NODE, .CHILD_NODE, .LIGHT_NODE]
  fields := [("direction", .readSFVec3f), ("on", .readSFBool), ("intensity", .readSFFloat),
    ("color", .readSFColor), ("ambientIntensity", .readSFFloat)]
  isLoop := true

def readSpotLightNode : NodeReader where
  typeName := "SpotLight"
  categorySet := [.TOP_NODE, .CHILD_NODE, .LIGHT_NODE]
  fields := [("location", .readSFVec3f), ("direction", .readSFVec3f), ("on", .readSFBool),
    ("color", .readSFColor), ("intensity", .readSFFloat), ("radius", .readSFFloat),
    ("ambientIntensity", .readSFFloat), ("attenuation", .readSFVec3f), ("beamWidth", .readSFFloat),
    ("cutOffAngle", .readSFFloat)]
  isLoop := true

def readBoxNode : NodeReader where
  typeName := "Box"
  categorySet := [.GEOMETRY_NODE]
  fields := [("size", .readSFVec3f)]
  isLoop := false

def readConeNode : NodeReader where
  typeName := "Cone"
  categorySet := [.GEOMETRY_NODE]
  fields := [("bottom", .readSFBool), ("bottomRadius", .readSFFloat), ("height", .readSFFloat),
    ("side", .readSFBool)]
  isLoop := true

def readCylinderNode : NodeReader where
  typeName := "Cylinder"
  categorySet := [.GEOMETRY_NODE]
  fields := [("bottom", .readSFBool), ("height", .readSFFloat), ("radius", .readSFFloat),
    ("side", .readSFBool), ("top", .readSFBool)]
  isLoop := true

def readSphereNode : NodeReader where
  typeName := "Sphere"
  categorySet := [.GEOMETRY_NODE]
  fields := [("radius", .readSFFloat)]
  isLoop := false

def readTextNode : NodeReader where
  typeName := "Text"
  categorySet := [.GEOMETRY_NODE]
  fields := [("string", .readMFString), ("length", .readMFFloat), ("maxExtent", .readSFFloat),
    ("fontStyle", .readSFNode .FONT_STYLE_NODE)]
  isLoop := true

def readFontStyleNode : NodeReader where
  typeName := "FontStyle"
  categorySet := [.FONT_STYLE_NODE]
  fields := [("family", .readMFString), ("horizontal", .readSFBool), ("justify", .readMFString),
    ("language", .readSFString), ("leftToRight", .readSFBool), ("size", .readSFFloat),
    ("spacing", .readSFFloat), ("style", .readSFString), ("topToBottom", .readSFBool)]
  isLoop := true

def readIndexedLineSetNode : NodeReader where
  typeName := "IndexedLineSet"
  categorySet := [.GEOMETRY_NODE]
  fields := [("color", .readSFNode .COLOR_NODE), ("coord", .readSFNode .COORDINATE_NODE),
    ("colorIndex", .readMFInt32), ("colorPerVertex", .readSFBool), ("coordIndex", .readMFInt32)]
  isLoop := true

def readIndexedFaceSetNode : NodeReader where
  typeName := "IndexedFaceSet"
  categorySet := [.GEOMETRY_NODE]
  fields := [("color", .readSFNode .COLOR_NODE), ("coord", .readSFNode .COORDINATE_NODE),
    ("colorIndex", .readMFInt32), ("colorPerVertex", .readSFBool), ("coordIndex", .readMFInt32),
    ("ccw", .readSFBool), ("convex", .readSFBool), ("solid", .readSFBool),
    ("creaseAngle", .readSFFloat), ("normalIndex", .readMFInt32), ("normalPerVertex", .readSFBool),
    ("texCoordIndex", .readMFInt32), ("texCoord", .readSFNode .TEXTURE_COORDINATE_NODE),
    ("normal", .readSFNode .NORMAL_NODE)]
  isLoop := true

def readCoordNode : NodeReader where
  typeName := "Coordinate"
  categorySet := [.COORDINATE_NODE]
  fields := [("point", .readMFVec3f)]
  isLoop := false

def readTextureCoordinateNode : NodeReader where
  typeName := "TextureCoordinate"
  categorySet := [.TEXTURE_COORDINATE_NODE]
  fields := [("point", .readMFVec2f)]
  isLoop := false

def readColorNode : NodeReader where
  typeName := "Color"
  categorySet := [.COLOR_NODE]
  fields := [("color", .readMFColor)]
  isLoop := false

def readNormalNode : NodeReader where
  typeName := "Normal"
  categorySet := [.NORMAL_NODE]
  fields := [("vector", .readMFVec3f)]
  isLoop := false

def readAppearanceNode : NodeReader where
  typeName := "Appearance"
  categorySet := [.APPEARANCE_NODE]
  fields := [("material", .readSFNode .MATERIAL_NODE), ("texture", .readSFNode .TEXTURE_NODE),
    ("textureTransform", .readSFNode .TEXTURE_TRANSFORM_NODE)]
  isLoop := true

def readMaterialNode : NodeReader where
  typeName := "Material"
  categorySet := [.MATERIAL_NODE]
  fields := [("ambientIntensity", .readSFFloat), ("diffuseColor", .readSFColor),
    ("emissiveColor", .readSFColor), ("shininess", .readSFFloat), ("specularColor", .readSFColor),
    ("transparency", .readSFFloat)]
  isLoop := true

def readImageTextureNode : NodeReader where
  typeName := "ImageTexture"
  categorySet := [.TEXTURE_NODE]
  fields := [("url", .readMFString), ("repeatS", .readSFBool), ("repeatT", .readSFBool)]
  isLoop := true

def readTextureTransformNode : NodeReader where
  typeName := "TextureTransform"
  categorySet := [.TEXTURE_TRANSFORM_NODE]
  fields := [("center", .readSFVec2f), ("rotation", .readSFFloat), ("scale", .readSFVec2f),
    ("translation", .readSFVec2f)]
  isLoop := true

/-- The functions that `readSpecificNode` selects from. -/
def nodeReaders : List NodeReader :=
  [readBackgroundNode, readNavigationInfoNode, readViewpointNode, readGroupNode, readTransformNode,
    readShapeNode, readCylinderSensorNode, readPointSetNode, readPixelTextureNode,
    readMovieTextureNode, readElevationGridNode, readExtrusionNode, readSwitchNode, readLODNode,
    readCollisionNode, readAnchorNode, readFogNode, readBillboardNode, readWorldInfoNode,
    readPointLightNode, readDirectionalLightNode, readSpotLightNode, readMaterialNode,
    readAppearanceNode, readImageTextureNode, readTextureTransformNode, readBoxNode, readConeNode,
    readCylinderNode, readSphereNode, readTextNode, readIndexedFaceSetNode, readIndexedLineSetNode,
    readCoordNode, readTextureCoordinateNode, readColorNode, readNormalNode, readFontStyleNode]

/-- The nodes that are skipped. -/
def unsupportedNodes : List String :=
  ["AudioClip", "Sound", "ColorInterpolator", "CoordinateInterpolator", "OrientationInterpolator",
    "NormalInterpolator", "PositionInterpolator", "ScalarInterpolator", "PlaneSensor",
    "ProximitySensor", "SphereSensor", "TimeSensor", "TouchSensor", "VisibilitySensor"]

/-- The categories of a `VrmlUnsupportedNode`. -/
def unsupportedCategories : List NodeCategory :=
  [.TOP_NODE, .CHILD_NODE]

end OpenHRP.Vrml
