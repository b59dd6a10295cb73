import OpenHRP.Foundations.Distinct
import OpenHRP.ModelLoader.BodyShapes
import Mathlib.Algebra.Order.Field.Basic
import Mathlib.Data.BitVec

/-!
# Changing a body to bounding boxes

`BodyInfo_impl::changetoBoundingBox` replaces the shapes of every link by boxes of its bounding-box
tree. Boxes of the same size, up to `EPS`, share a shape, and boxes of one link with the same size
and place are merged. The shapes, appearances and materials are rebuilt in place.
-/

open Matrix

namespace OpenHRP.ModelLoader

variable {K : Type*} [Field K] [LinearOrder K]

/-! ### Boxes as shapes -/

variable (K) in
/-- `EPS`. -/
def EPS : K :=
  ((10 ^ 6 : ℕ) : K)⁻¹

/-- `(a - b).norm() < EPS`, with both sides squared. -/
def Near (a b : Vector3 K) : Prop :=
  (a - b) ⬝ᵥ (a - b) < EPS K * EPS K

instance : DecidableRel (Near (K := K)) := fun a b ↦
  inferInstanceAs (Decidable ((a - b) ⬝ᵥ (a - b) < EPS K * EPS K))

/-- The corners of the triangles of a box. -/
def boxCoordIndex : List ℤ :=
  [0, 1, 2, -1, 2, 3, 0, -1, 3, 2, 6, -1, 3, 6, 7, -1, 6, 2, 1, -1, 1, 5, 6, -1,
    1, 0, 5, -1, 5, 0, 4, -1, 5, 4, 6, -1, 6, 4, 7, -1, 7, 4, 0, -1, 0, 3, 7, -1]

/-- `convertBox`: the vertices and the corners of the mesh of a box, none if an edge is negative. -/
def convertBox (size : Vector3 K) : List (Vector3 K) × List ℤ :=
  let x := size 0 / 2
  let y := size 1 / 2
  let z := size 2 / 2
  if x < 0 ∨ y < 0 ∨ z < 0 then ([], [])
  else
    ([![-x, -y, -z], ![-x, -y, z], ![-x, y, z], ![-x, y, -z],
      ![x, -y, -z], ![x, -y, z], ![x, y, z], ![x, y, -z]], boxCoordIndex)

/-- What `setBoundingBoxData` makes of a shape; the url stays. -/
def ShapeInfo.setBox (shapeInfo : ShapeInfo K) (boxSize : Vector3 K) : ShapeInfo K :=
  let size : Vector3 K := ![boxSize 0 * 2, boxSize 1 * 2, boxSize 2 * 2]
  let triangleMesh := convertBox size
  ⟨shapeInfo.url, .box, [size 0, size 1, size 2], flatten triangleMesh.1, cornersOf triangleMesh.2,
    0⟩

/-- `setBoundingBoxData`. -/
def setBoundingBoxData (shapes : List (ShapeInfo K)) (boxSize : Vector3 K) (shapeIndex : ℕ) :
    List (ShapeInfo K) :=
  (setLength .blank shapes (shapeIndex + 1)).modify shapeIndex (·.setBox boxSize)

/-- What `createAppearanceInfo()` makes of the first appearance; the texture coordinates stay. -/
def AppearanceInfo.reset (appInfo : AppearanceInfo K) : AppearanceInfo K :=
  ⟨⟨[], [], false, false, 0, [], [], false, appInfo.textureCoordinate, appInfo.textureCoordIndices,
    appInfo.textransformMatrix⟩, 0, -1⟩

/-- What `createAppearanceInfo()` makes of the first material. -/
def MaterialInfo.default : MaterialInfo K :=
  ⟨((5 : ℕ) : K)⁻¹, fun _ ↦ (4 : ℕ) / (5 : ℕ), 0, ((5 : ℕ) : K)⁻¹, 0, 0⟩

/-- `createAppearanceInfo()`: one appearance and one material remain. -/
def createAppearanceInfo (s : ShapeSet K) : ShapeSet K :=
  ⟨s.shapes, (setLength .blank s.appearances 1).modify 0 AppearanceInfo.reset,
    (setLength .blank s.materials 1).modify 0 fun _ ↦ .default, s.textures⟩

/-! ### Placing the boxes of a link -/

/-- The entry of a link for a box with the center `p` and the shape `k`. -/
def placeBox (p : Vector3 K) (k : ℕ) : TransformedShapeIndex K :=
  ⟨![1, 0, 0, p 0, 0, 1, 0, p 1, 0, 0, 1, p 2], -1, short k⟩

/-- The translation of a transformed shape. -/
def TransformedShapeIndex.position (tsi : TransformedShapeIndex K) : Vector3 K :=
  ![tsi.transformMatrix 3, tsi.transformMatrix 7, tsi.transformMatrix 11]

/-- The state of the loop over the boxes of a link. -/
structure Merger (K : Type*) where
  boxSizeMap : List (Vector3 K)
  shapes : List (ShapeInfo K)
  /-- The boxes of the link so far; the entries of the link are the same. -/
  tsiMap : List (TransformedShapeIndex K)

/-- The body of the loop over the boxes of a link. -/
def mergeBox (m : Merger K) (box : AABB K) : Merger K :=
  let k := m.boxSizeMap.findIdx (Near · box.mExtents)
  if k < m.boxSizeMap.length then
    if ∃ tsi ∈ m.tsiMap, Near tsi.position box.mCenter ∧ tsi.shapeIndex = k then m
    else ⟨m.boxSizeMap, m.shapes, m.tsiMap ++ [placeBox box.mCenter k]⟩
  else
    ⟨m.boxSizeMap ++ [box.mExtents], setBoundingBoxData m.shapes box.mExtents k,
      m.tsiMap ++ [placeBox box.mCenter k]⟩

omit [LinearOrder K] [Field K] in
/-- The depth that a request asks of a link. -/
def requestedDepth (type : AABBdataType) (model : ColdetModel K) (inputData : BitVec 32) : ℤ :=
  match type with
  | .num => model.numofBBtoDepth inputData.toInt
  | .depth => inputData.toInt

omit [LinearOrder K] [Field K] in
/-- `_depth`: not below the deepest level of the tree, as far as the link knows it. -/
def chosenDepth (type : AABBdataType) (model : ColdetModel K) (AABBmaxDepth : ℤ)
    (inputData : BitVec 32) : ℤ :=
  let depth := requestedDepth type model inputData
  if AABBmaxDepth ≤ depth then AABBmaxDepth - 1 else depth

/-- A sensor without shapes. -/
def NodeShapes.clear (sensor : NodeShapes K) : NodeShapes K :=
  ⟨[], sensor.inlinedShapeTransformMatrices⟩

/-- A link with other shapes; those of its sensors go with them. -/
def LinkShapes.setBoxes (link : LinkShapes K) (tsiMap : List (TransformedShapeIndex K)) :
    LinkShapes K :=
  ⟨tsiMap, link.inlinedShapeTransformMatrices, link.segments, link.sensors.map .clear, link.hwcs,
    link.AABBmaxDepth⟩

/-- The body of the loop over the links: the link, the sizes of the boxes so far and the shapes. -/
def changeLink (type : AABBdataType) (model : ColdetModel K) (inputData : BitVec 32)
    (link : LinkShapes K) (boxSizeMap : List (Vector3 K)) (shapes : List (ShapeInfo K)) :
    LinkShapes K × List (Vector3 K) × List (ShapeInfo K) :=
  let depth := chosenDepth type model link.AABBmaxDepth inputData
  if 0 ≤ depth then
    let m := (model.getBoundingBoxData depth.toNat).foldl mergeBox ⟨boxSizeMap, shapes, []⟩
    (link.setBoxes m.tsiMap, m.boxSizeMap, m.shapes)
  else (link, boxSizeMap, shapes)

/-- The loop over the links from the link `i` on: the links and the shapes. -/
def changeLinks (type : AABBdataType) (models : List (ColdetModel K)) (inputData : ℕ → BitVec 32) :
    List (LinkShapes K) → ℕ → List (Vector3 K) → List (ShapeInfo K) →
      List (LinkShapes K) × List (ShapeInfo K)
  | [], _, _, shapes => ([], shapes)
  | link :: l, i, boxSizeMap, shapes =>
    let changed :=
      changeLink type (models.getD i (.build none)) (inputData i) link boxSizeMap shapes
    let rest := changeLinks type models inputData l (i + 1) changed.2.1 changed.2.2
    (changed.1 :: rest.1, rest.2)

/-- `changetoBoundingBox`. Every link leaves its shapes in `linkShapeIndices_` too. -/
def changetoBoundingBox (body : BodyInfo K) (inputData : ℕ → BitVec 32) : BodyInfo K :=
  let s := createAppearanceInfo body.shapeSet
  let changed :=
    changeLinks body.AABBdataType body.linkColdetModels inputData body.links 0 [] s.shapes
  ⟨⟨changed.2, s.appearances, s.materials, s.textures⟩, changed.1,
    changed.1.map LinkShapes.shapeIndices, body.linkColdetModels, body.AABBdataType⟩

/-- `setParam("AABBType", value)`. -/
def setAABBType (body : BodyInfo K) (type : AABBdataType) : BodyInfo K :=
  ⟨body.shapeSet, body.links, body.linkShapeIndices, body.linkColdetModels, type⟩

end OpenHRP.ModelLoader
