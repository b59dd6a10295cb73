import OpenHRP.ModelLoader.BodyInfo

/-!
# The shapes of a model file

`ShapeSetInfo_impl` collects the shapes, appearances, materials and textures of a model file while
it goes through the scene graph below every link (`traverseShapeNodes`). What a link, a sensor, a
hardware component or a segment has of them it names by indices.

Every shape gets an appearance of its own, with the same index (`ShapeSet.Valid`). Going through a
scene graph keeps that, the indices that it leaves are in range, and it only ever appends
(`traverseShapeNodes_leads`).
-/

open Matrix

namespace OpenHRP.ModelLoader

variable {K : Type*}

/-- Four-by-four matrices. -/
abbrev Matrix44 (K : Type*) := Matrix (Fin 4) (Fin 4) K

/-- The upper three rows of a homogeneous matrix, row by row. -/
def upperRows (T : Matrix44 K) : Fin 12 → K :=
  ![T 0 0, T 0 1, T 0 2, T 0 3, T 1 0, T 1 1, T 1 2, T 1 3, T 2 0, T 2 1, T 2 2, T 2 3]

/-! ### Records -/

/-- A `TransformedShapeIndex`. -/
structure TransformedShapeIndex (K : Type*) where
  /-- The upper three rows of a homogeneous matrix, row by row. -/
  transformMatrix : Fin 12 → K
  inlinedShapeTransformMatrixIndex : ℤ
  shapeIndex : ℤ
  deriving DecidableEq

/-- The kinds of primitives. -/
inductive ShapePrimitiveType where
  | mesh
  | box
  | cylinder
  | cone
  | sphere
  | plane
  deriving DecidableEq, Repr

/-- A `ShapeInfo`. -/
structure ShapeInfo (K : Type*) where
  url : String
  primitiveType : ShapePrimitiveType
  primitiveParameters : List K
  vertices : List K
  triangles : List ℤ
  appearanceIndex : ℤ
  deriving DecidableEq

/-- The colors, normals and texture coordinates of an `AppearanceInfo`. -/
structure Surface (K : Type*) where
  normals : List K
  normalIndices : List ℤ
  normalPerVertex : Bool
  solid : Bool
  creaseAngle : K
  colors : List K
  colorIndices : List ℤ
  colorPerVertex : Bool
  textureCoordinate : List K
  textureCoordIndices : List ℤ
  textransformMatrix : Fin 9 → K
  deriving DecidableEq

/-- An `AppearanceInfo`. -/
structure AppearanceInfo (K : Type*) extends Surface K where
  materialIndex : ℤ
  textureIndex : ℤ
  deriving DecidableEq

/-- A `MaterialInfo`. -/
structure MaterialInfo (K : Type*) where
  ambientIntensity : K
  diffuseColor : Vector3 K
  emissiveColor : Vector3 K
  shininess : K
  specularColor : Vector3 K
  transparency : K
  deriving DecidableEq

/-- An `SFImage`. -/
structure SFImage where
  width : ℤ
  height : ℤ
  numComponents : ℤ
  pixels : List ℕ
  deriving DecidableEq

/-- A `TextureInfo`. -/
structure TextureInfo where
  image : List ℕ
  numComponents : ℤ
  width : ℤ
  height : ℤ
  repeatS : Bool
  repeatT : Bool
  url : String
  deriving DecidableEq

/-- Elements of sequences that `length(n)` has just made. -/
def ShapeInfo.blank : ShapeInfo K :=
  ⟨"", .mesh, [], [], [], 0⟩

@[inherit_doc ShapeInfo.blank]
def AppearanceInfo.blank [Zero K] : AppearanceInfo K :=
  ⟨⟨[], [], false, false, 0, [], [], false, [], [], 0⟩, 0, 0⟩

@[inherit_doc ShapeInfo.blank]
def MaterialInfo.blank [Zero K] : MaterialInfo K :=
  ⟨0, 0, 0, 0, 0, 0⟩

/-- `length(n)` of a sequence. -/
def setLength {α : Type*} (blank : α) (l : List α) (n : ℕ) : List α :=
  l.take n ++ List.replicate (n - l.length) blank

/-- What a `ShapeSetInfo_impl` has collected. -/
structure ShapeSet (K : Type*) where
  shapes : List (ShapeInfo K)
  appearances : List (AppearanceInfo K)
  materials : List (MaterialInfo K)
  textures : List TextureInfo

/-! ### The scene graph -/

/-- A texture node. -/
inductive VrmlTexture where
  | pixel (image : SFImage) (repeatS repeatT : Bool)
  /-- An image file, as `setTexturefileUrl` finds it. -/
  | image (url : String) (repeatS repeatT : Bool)
  | movie
  deriving DecidableEq

/-- An Appearance node. -/
structure VrmlAppearance (K : Type*) where
  material : Option (MaterialInfo K)
  texture : Option VrmlTexture

/-- The geometry of a Shape node after `applyTriangleMeshShaper` has made a mesh of it. -/
structure VrmlIndexedFaceSet (K : Type*) where
  point : List (Vector3 K)
  coordIndex : List ℤ
  /-- What `setColors`, `setNormals` and `setTexCoords` copy from it. -/
  surface : Surface K

/-- A Shape node. -/
structure VrmlShape (K : Type*) where
  geometry : Option (VrmlIndexedFaceSet K)
  /-- What `setPrimitiveProperties` reads from the geometry that the mesh was made of. -/
  primitiveType : ShapePrimitiveType
  primitiveParameters : List K
  appearance : Option (VrmlAppearance K)

/-- A node of the scene graph. -/
inductive VrmlNode (K : Type*) where
  | protoInstance (actualNode : Option (VrmlNode K))
  | group (children : List (VrmlNode K))
  /-- A Transform node, with the matrix that `calcTransformMatrix` makes of its fields. -/
  | transform (Tlocal : Matrix44 K) (children : List (VrmlNode K))
  | inline (urls : List String) (children : List (VrmlNode K))
  | switch (whichChoice : ℤ) (children : List (VrmlNode K))
  /-- A Shape node. Nodes that are used in several places are told by their address. -/
  | shape (address : ℕ) (shapeNode : VrmlShape K)
  | other

/-! ### Collecting -/

/-- The collection, and the map from the Shape nodes met so far to their shapes. -/
structure Collector (K : Type*) extends ShapeSet K where
  shapeInfoIndexMap : ℕ → Option ℤ

/-- `setTriangleMesh`: the coordinates and the corners, without the `-1` after each triangle. -/
def flatten (point : List (Vector3 K)) : List K :=
  point.flatMap fun v ↦ [v 0, v 1, v 2]

@[inherit_doc flatten]
def cornersOf : List ℤ → List ℤ
  | a :: b :: c :: _ :: l => a :: b :: c :: cornersOf l
  | _ => []

/-- `createTextureInfo`, for a texture that is there: `convert` reads an image file. -/
def textureInfoOf (readImage : Bool) (convert : String → SFImage) : VrmlTexture → TextureInfo
  | .pixel image repeatS repeatT =>
    ⟨image.pixels, short image.numComponents, short image.width, short image.height, repeatS,
      repeatT, ""⟩
  | .image url repeatS repeatT =>
    if readImage ∧ url ≠ "" then
      let image := convert url
      ⟨image.pixels, short image.numComponents, short image.width, short image.height, repeatS,
        repeatT, url⟩
    else ⟨[], 0, 0, 0, repeatS, repeatT, url⟩
  | .movie => ⟨[], 0, 0, 0, false, false, ""⟩

/-- `createMaterialInfo` and `createTextureInfo`: the index of what is appended to a sequence, and
`-1` for nothing. -/
def appendIndex {α : Type*} (l : List α) : Option α → ℤ
  | none => -1
  | some _ => l.length

/-- `createAppearanceInfo` of a Shape node: the index of the appearance and the collection. -/
def createShapeAppearance (readImage : Bool) (convert : String → SFImage) (s : ShapeSet K)
    (shapeNode : VrmlShape K) (surface : Surface K) : ℤ × ShapeSet K :=
  let material := shapeNode.appearance.bind VrmlAppearance.material
  let texture := (shapeNode.appearance.bind VrmlAppearance.texture).map
    (textureInfoOf readImage convert)
  let appInfo : AppearanceInfo K :=
    ⟨surface, appendIndex s.materials material, appendIndex s.textures texture⟩
  (s.appearances.length, ⟨s.shapes, s.appearances ++ [appInfo], s.materials ++ material.toList,
    s.textures ++ texture.toList⟩)

/-- `createShapeInfo`: the index of the shape, `-1` without a mesh, and the collection. -/
def createShapeInfo (readImage : Bool) (convert : String → SFImage) (s : Collector K)
    (address : ℕ) (shapeNode : VrmlShape K) (url : String) : ℤ × Collector K :=
  match shapeNode.geometry with
  | none => (-1, s)
  | some triangleMesh =>
    let shapeInfoIndex : ℤ := s.shapes.length
    let app := createShapeAppearance readImage convert s.toShapeSet shapeNode triangleMesh.surface
    let shapeInfo : ShapeInfo K :=
      ⟨url, shapeNode.primitiveType, shapeNode.primitiveParameters, flatten triangleMesh.point,
        cornersOf triangleMesh.coordIndex, app.1⟩
    (shapeInfoIndex,
      ⟨⟨s.shapes ++ [shapeInfo], app.2.appearances, app.2.materials, app.2.textures⟩,
        Function.update s.shapeInfoIndexMap address (some shapeInfoIndex)⟩)

/-- What `traverseShapeNodes` fills. -/
structure Traversal (K : Type*) where
  collector : Collector K
  shapeIndices : List (TransformedShapeIndex K)
  inlinedShapeM : List (Fin 12 → K)

section Traverse

variable [NonUnitalNonAssocSemiring K] (readImage : Bool) (convert : String → SFImage)

/-- `traverseShapeNodes` at a Shape node: a shape that was met before is not made again. The index
is kept in 16 bits, and a negative one is dropped. -/
def visitShape (address : ℕ) (shapeNode : VrmlShape K) (T : Matrix44 K) (inline_count : ℕ)
    (url : String) (s : Traversal K) : Traversal K :=
  let found := match s.collector.shapeInfoIndexMap address with
    | some index => (index, s.collector)
    | none => createShapeInfo readImage convert s.collector address shapeNode url
  let shapeInfoIndex := short found.1
  if 0 ≤ shapeInfoIndex then
    let inlinedIndex := if inline_count = 0 then -1 else short (s.inlinedShapeM.length - 1)
    ⟨found.2, s.shapeIndices ++ [⟨upperRows T, inlinedIndex, shapeInfoIndex⟩], s.inlinedShapeM⟩
  else ⟨found.2, s.shapeIndices, s.inlinedShapeM⟩

/-- Only the outermost Inline node leaves its transform and its url. -/
def enterInline (T : Matrix44 K) (inline_count : ℕ) (s : Traversal K) : Traversal K :=
  if inline_count = 0 then ⟨s.collector, s.shapeIndices, s.inlinedShapeM ++ [upperRows T]⟩ else s

mutual

/-- `traverseShapeNodes`. `inline_count` is the number of Inline nodes around the node. -/
def traverseShapeNodes : VrmlNode K → Matrix44 K → ℕ → String → Traversal K → Traversal K
  | .protoInstance none, _, _, _, s => s
  | .protoInstance (some actualNode), T, inline_count, url, s =>
    traverseShapeNodes actualNode T inline_count url s
  | .group children, T, inline_count, url, s => traverseChildren children T inline_count url s
  | .transform Tlocal children, T, inline_count, url, s =>
    traverseChildren children (T * Tlocal) inline_count url s
  | .inline urls children, T, inline_count, url, s =>
    traverseChildren children T (inline_count + 1)
      (if inline_count = 0 then urls.headD "" else url) (enterInline T inline_count s)
  | .switch whichChoice children, T, inline_count, url, s =>
    if 0 ≤ whichChoice then traverseChoice children whichChoice.toNat T inline_count url s else s
  | .shape address shapeNode, T, inline_count, url, s =>
    visitShape readImage convert address shapeNode T inline_count url s
  | .other, _, _, _, s => s

/-- The loop over the children of a grouping node. -/
def traverseChildren : List (VrmlNode K) → Matrix44 K → ℕ → String → Traversal K → Traversal K
  | [], _, _, _, s => s
  | node :: l, T, inline_count, url, s =>
    traverseChildren l T inline_count url (traverseShapeNodes node T inline_count url s)

/-- The child of a Switch node that is chosen, if there is one. -/
def traverseChoice : List (VrmlNode K) → ℕ → Matrix44 K → ℕ → String → Traversal K → Traversal K
  | [], _, _, _, _, s => s
  | node :: _, 0, T, inline_count, url, s => traverseShapeNodes node T inline_count url s
  | _ :: l, n + 1, T, inline_count, url, s => traverseChoice l n T inline_count url s

end

end Traverse

/-! ### Indices in range -/

/-- An index of a sequence of `n` elements. -/
def InRange (index : ℤ) (n : ℕ) : Prop :=
  0 ≤ index ∧ index < n

instance (index : ℤ) (n : ℕ) : Decidable (InRange index n) :=
  inferInstanceAs (Decidable (_ ∧ _))

theorem InRange.mono {index : ℤ} {m n : ℕ} (h : InRange index m) (hmn : m ≤ n) : InRange index n :=
  ⟨h.1, h.2.trans_le (by exact_mod_cast hmn)⟩

theorem inRange_natCast {k n : ℕ} : InRange k n ↔ k < n := by
  simp [InRange]

/-- A number that 16 bits may have made smaller. -/
theorem InRange.short {k n : ℕ} (h : k < n) (h0 : 0 ≤ short k) : InRange (short k) n := by
  refine ⟨h0, lt_of_le_of_lt ?_ (Int.ofNat_lt.2 h)⟩
  rw [ModelLoader.short, Int.bmod_def] at *
  omega

/-- The indices of a collection are in range: the shapes and the appearances go together. -/
structure ShapeSet.Valid (s : ShapeSet K) : Prop where
  appearanceIndex : ∀ (k : ℕ) shapeInfo, s.shapes[k]? = some shapeInfo →
    shapeInfo.appearanceIndex = k
  length_appearances : s.appearances.length = s.shapes.length
  materialIndex : ∀ appInfo ∈ s.appearances,
    appInfo.materialIndex = -1 ∨ InRange appInfo.materialIndex s.materials.length
  textureIndex : ∀ appInfo ∈ s.appearances,
    appInfo.textureIndex = -1 ∨ InRange appInfo.textureIndex s.textures.length

/-- The indices in a sequence of transformed shapes are in range. -/
def Refer (shapeIndices : List (TransformedShapeIndex K)) (n : ℕ) : Prop :=
  ∀ tsi ∈ shapeIndices, InRange tsi.shapeIndex n

instance (shapeIndices : List (TransformedShapeIndex K)) (n : ℕ) :
    Decidable (Refer shapeIndices n) :=
  inferInstanceAs (Decidable (∀ tsi ∈ shapeIndices, InRange tsi.shapeIndex n))

theorem Refer.mono {l : List (TransformedShapeIndex K)} {m n : ℕ} (h : Refer l m) (hmn : m ≤ n) :
    Refer l n :=
  fun tsi htsi ↦ (h tsi htsi).mono hmn

theorem refer_nil (n : ℕ) : Refer ([] : List (TransformedShapeIndex K)) n :=
  fun _ h ↦ absurd h List.not_mem_nil

/-- Everything that has been collected is in range. -/
structure Collector.Valid (s : Collector K) : Prop extends s.toShapeSet.Valid where
  shapeInfoIndexMap : ∀ address index, s.shapeInfoIndexMap address = some index →
    ∃ k < s.shapes.length, index = (k : ℤ)

/-- A traversal leads from `s` to `s'`: what it leaves is in range, and it has only appended. -/
structure Traversal.Leads (s s' : Traversal K) : Prop where
  valid : s'.collector.Valid
  refer : Refer s'.shapeIndices s'.collector.shapes.length
  length_shapes : s.collector.shapes.length ≤ s'.collector.shapes.length
  length_shapeIndices : s.shapeIndices.length ≤ s'.shapeIndices.length

/-- A traversal that is as it should be. -/
def Traversal.Valid (s : Traversal K) : Prop :=
  s.Leads s

theorem Traversal.Leads.trans {s s' s'' : Traversal K} (h : s.Leads s') (h' : s'.Leads s'') :
    s.Leads s'' :=
  ⟨h'.valid, h'.refer, h.length_shapes.trans h'.length_shapes,
    h.length_shapeIndices.trans h'.length_shapeIndices⟩

theorem Traversal.Leads.valid_right {s s' : Traversal K} (h : s.Leads s') : s'.Valid :=
  ⟨h.valid, h.refer, le_rfl, le_rfl⟩

theorem appendIndex_eq {α : Type*} (l : List α) (o : Option α) :
    appendIndex l o = -1 ∨ InRange (appendIndex l o) (l ++ o.toList).length := by
  cases o with
  | none => exact .inl rfl
  | some a => exact .inr (by simp [appendIndex, InRange])

section Spec

variable (readImage : Bool) (convert : String → SFImage)

theorem createShapeInfo_spec {s : Collector K} (h : s.Valid) (address : ℕ)
    (shapeNode : VrmlShape K) (url : String) :
    let found := createShapeInfo readImage convert s address shapeNode url
    found.2.Valid ∧ s.shapes.length ≤ found.2.shapes.length ∧
      (found.1 = -1 ∨ ∃ k < found.2.shapes.length, found.1 = (k : ℤ)) := by
  intro found
  obtain ⟨⟨happ, hlen, hmat, htex⟩, hmap⟩ := h
  obtain ⟨geometry, primitiveType, primitiveParameters, appearance⟩ := shapeNode
  cases geometry with
  | none => exact ⟨⟨⟨happ, hlen, hmat, htex⟩, hmap⟩, le_rfl, .inl rfl⟩
  | some triangleMesh =>
    have hlength : found.2.shapes.length = s.shapes.length + 1 := List.length_append
    refine ⟨⟨⟨fun k shapeInfo hk ↦ ?_, ?_, fun a ha ↦ ?_, fun a ha ↦ ?_⟩, fun a index ha ↦ ?_⟩,
      by omega, .inr ⟨s.shapes.length, by omega, rfl⟩⟩
    · rcases Nat.lt_or_ge k s.shapes.length with hlt | hge
      · exact happ k shapeInfo ((List.getElem?_append_left hlt).symm.trans hk)
      · have hk' := (List.getElem?_append_right hge).symm.trans hk
        obtain ⟨hk0, rfl⟩ := List.getElem?_eq_some_iff.1 hk'
        have hk1 : k - s.shapes.length < 1 := hk0
        obtain rfl : k = s.shapes.length := by omega
        simp [createShapeAppearance, hlen]
    · simp [found, createShapeInfo, createShapeAppearance, hlen]
    · rcases List.mem_append.1 ha with ha | ha
      · refine (hmat a ha).imp_right fun hin ↦ hin.mono ?_
        simp [found, createShapeInfo, createShapeAppearance]
      · obtain rfl := List.mem_singleton.1 ha
        exact appendIndex_eq _ _
    · rcases List.mem_append.1 ha with ha | ha
      · refine (htex a ha).imp_right fun hin ↦ hin.mono ?_
        simp [found, createShapeInfo, createShapeAppearance]
      · obtain rfl := List.mem_singleton.1 ha
        exact appendIndex_eq _ _
    · by_cases heq : a = address
      · subst heq
        have hindex := (Function.update_self ..).symm.trans ha
        exact ⟨s.shapes.length, by omega, (Option.some_inj.1 hindex).symm⟩
      · obtain ⟨k, hk, hindex⟩ := hmap a index ((Function.update_of_ne heq ..).symm.trans ha)
        exact ⟨k, by omega, hindex⟩

theorem visitShape_leads {s : Traversal K} (h : s.Valid) (address : ℕ) (shapeNode : VrmlShape K)
    (T : Matrix44 K) (inline_count : ℕ) (url : String) :
    s.Leads (visitShape readImage convert address shapeNode T inline_count url s) := by
  obtain ⟨hvalid, hrefer, -, -⟩ := h
  -- Whether the shape is new or not, its index is that of a shape, or `-1`.
  have hfound : ∀ found : ℤ × Collector K, found =
      (match s.collector.shapeInfoIndexMap address with
        | some index => (index, s.collector)
        | none => createShapeInfo readImage convert s.collector address shapeNode url) →
      found.2.Valid ∧ s.collector.shapes.length ≤ found.2.shapes.length ∧
        (found.1 = -1 ∨ ∃ k < found.2.shapes.length, found.1 = (k : ℤ)) := by
    rintro found rfl
    split
    · next index hindex => exact ⟨hvalid, le_rfl, .inr (hvalid.shapeInfoIndexMap _ _ hindex)⟩
    · exact createShapeInfo_spec readImage convert hvalid address shapeNode url
  obtain ⟨hvalid', hlength, hindex⟩ := hfound _ rfl
  rw [visitShape]
  generalize (match s.collector.shapeInfoIndexMap address with
        | some index => (index, s.collector)
        | none => createShapeInfo readImage convert s.collector address shapeNode url) = found at *
  dsimp only
  split
  · next h0 =>
    refine ⟨hvalid', fun tsi htsi ↦ ?_, hlength, by simp⟩
    rcases List.mem_append.1 htsi with htsi | htsi
    · exact (hrefer tsi htsi).mono hlength
    · obtain rfl := List.mem_singleton.1 htsi
      rcases hindex with hnone | ⟨k, hk, hindex⟩
      · rw [hnone] at h0
        exact absurd h0 (by decide)
      · rw [hindex] at h0
        show InRange (short found.1) _
        rw [hindex]
        exact InRange.short hk h0
  · exact ⟨hvalid', hrefer.mono hlength, hlength, le_rfl⟩

theorem enterInline_leads {s : Traversal K} (h : s.Valid) (T : Matrix44 K) (inline_count : ℕ) :
    s.Leads (enterInline T inline_count s) := by
  rw [enterInline]
  split
  · exact ⟨h.valid, h.refer, le_rfl, le_rfl⟩
  · exact h

variable [NonUnitalNonAssocSemiring K]

mutual

theorem traverseShapeNodes_leads : ∀ (node : VrmlNode K) (T : Matrix44 K) (inline_count : ℕ)
    (url : String) {s : Traversal K}, s.Valid →
      s.Leads (traverseShapeNodes readImage convert node T inline_count url s)
  | .protoInstance none, _, _, _, _, h => by
    rw [traverseShapeNodes]
    exact h
  | .protoInstance (some actualNode), T, inline_count, url, _, h => by
    rw [traverseShapeNodes]
    exact traverseShapeNodes_leads actualNode T inline_count url h
  | .group children, T, inline_count, url, _, h => by
    rw [traverseShapeNodes]
    exact traverseChildren_leads children T inline_count url h
  | .transform Tlocal children, T, inline_count, url, _, h => by
    rw [traverseShapeNodes]
    exact traverseChildren_leads children (T * Tlocal) inline_count url h
  | .inline urls children, T, inline_count, url, s, h => by
    have henter := enterInline_leads h T inline_count
    rw [traverseShapeNodes]
    exact henter.trans (traverseChildren_leads children T _ _ henter.valid_right)
  | .switch whichChoice children, T, inline_count, url, s, h => by
    rw [traverseShapeNodes]
    split
    · exact traverseChoice_leads children whichChoice.toNat T inline_count url h
    · exact h
  | .shape address shapeNode, T, inline_count, url, s, h => by
    rw [traverseShapeNodes]
    exact visitShape_leads readImage convert h address shapeNode T inline_count url
  | .other, _, _, _, _, h => by
    rw [traverseShapeNodes]
    exact h

theorem traverseChildren_leads : ∀ (l : List (VrmlNode K)) (T : Matrix44 K) (inline_count : ℕ)
    (url : String) {s : Traversal K}, s.Valid →
      s.Leads (traverseChildren readImage convert l T inline_count url s)
  | [], _, _, _, _, h => by
    rw [traverseChildren]
    exact h
  | node :: l, T, inline_count, url, s, h => by
    have hnode := traverseShapeNodes_leads node T inline_count url h
    rw [traverseChildren]
    exact hnode.trans (traverseChildren_leads l T inline_count url hnode.valid_right)

theorem traverseChoice_leads : ∀ (l : List (VrmlNode K)) (n : ℕ) (T : Matrix44 K)
    (inline_count : ℕ) (url : String) {s : Traversal K}, s.Valid →
      s.Leads (traverseChoice readImage convert l n T inline_count url s)
  | [], _, _, _, _, _, h => by
    rw [traverseChoice]
    exact h
  | node :: _, 0, T, inline_count, url, _, h => by
    rw [traverseChoice]
    exact traverseShapeNodes_leads node T inline_count url h
  | _ :: l, n + 1, T, inline_count, url, _, h => by
    rw [traverseChoice]
    exact traverseChoice_leads l n T inline_count url h

end

end Spec

end OpenHRP.ModelLoader
