import OpenHRP.ModelLoader.ShapeSetInfo

/-!
# The collision model of a link

`ModelLoaderHelper::createColdetModel` and the constructor of `ColdetBody` both build the collision
model of a link from the shapes of the link and of its sensors. They are written alike, down to the
functions that add the vertices and the triangles, but for the loop over the shapes of the sensors:
the first function keeps there neither the number nor the transform of a shape, which it needs when
the link has one shape in all; the second keeps the transform of the shape without that of the
sensor.

The two models have the mesh of the placed shapes (`IsMesh`). They are the same, no variable is read
before it is set, and the pose of a primitive is that of its mesh, unless the only shape is that of
a sensor and has a triangle (`buildersAgree_iff`).
-/

open Matrix

namespace OpenHRP.LinkColdetModel

open ModelLoader (Matrix44 TransformedShapeIndex ShapeInfo ShapePrimitiveType upperRows setLength)

variable {K : Type*}

/-- The part of a `SensorInfo` that places its shapes. -/
structure SensorInfo (K : Type*) where
  translation : Vector3 K
  /-- Axis and angle. -/
  rotation : Fin 4 → K
  shapeIndices : List (TransformedShapeIndex K)

/-- The part of a `LinkInfo` that the functions read. -/
structure LinkInfo (K : Type*) where
  name : String
  shapeIndices : List (TransformedShapeIndex K)
  sensors : List (SensorInfo K)

/-- A `ColdetModel`, with its data set. -/
@[ext]
structure ColdetModel (K : Type*) where
  name : String
  vertices : List (Vector3 K)
  triangles : List (ℤ × ℤ × ℤ)
  pType : ShapePrimitiveType
  pParams : List K
  /-- The upper three rows of a homogeneous matrix, row by row. -/
  pTransform : Fin 12 → K
  /-- Whether `build` has been called. -/
  isBuilt : Bool

/-- The elements of a sequence, three at a time; what is left over is dropped. -/
def triples {α : Type*} : List α → List (α × α × α)
  | a :: b :: c :: l => (a, b, c) :: triples l
  | _ => []

/-- A homogeneous matrix from its upper three rows. -/
def homogeneous (M : Fin 12 → K) [Zero K] [One K] : Matrix44 K :=
  !![M 0, M 1, M 2, M 3; M 4, M 5, M 6, M 7; M 8, M 9, M 10, M 11; 0, 0, 0, 1]

/-- What a builder has after its loops over the shapes. `R` and `p` are written together. -/
structure Locals (K : Type*) where
  totalNumVertices : ℕ
  totalNumTriangles : ℕ
  shapeIndex : Option ℤ
  tform : Option (Fin 12 → K)

/-- A shape adds to the totals. -/
def Locals.count (shape : ShapeInfo K) (s : Locals K) : Locals K :=
  { s with
    totalNumVertices := s.totalNumVertices + shape.vertices.length / 3
    totalNumTriangles := s.totalNumTriangles + shape.triangles.length / 3 }

/-- A shape adds to the totals, and its number and its transform are kept. -/
def Locals.keep (shapes : ℤ → ShapeInfo K) (s : Locals K) (tsi : TransformedShapeIndex K) :
    Locals K :=
  (⟨s.totalNumVertices, s.totalNumTriangles, some tsi.shapeIndex, some tsi.transformMatrix⟩ :
    Locals K).count (shapes tsi.shapeIndex)

/-- The state while vertices and triangles are added. -/
structure Filling (K : Type*) where
  coldetModel : ColdetModel K
  vertexIndex : ℕ
  triangleIndex : ℕ

/-- `setVertex(vertexIndex++, ..)`. -/
def Filling.setVertex (s : Filling K) (v : Vector3 K) : Filling K :=
  ⟨{ s.coldetModel with vertices := s.coldetModel.vertices.set s.vertexIndex v },
    s.vertexIndex + 1, s.triangleIndex⟩

/-- `setTriangle(triangleIndex++, ..)`. -/
def Filling.setTriangle (s : Filling K) (t : ℤ × ℤ × ℤ) : Filling K :=
  ⟨{ s.coldetModel with triangles := s.coldetModel.triangles.set s.triangleIndex t },
    s.vertexIndex, s.triangleIndex + 1⟩

section Build

variable [CommRing K] (toFloat : K → K)

/-- A vertex after a transform. -/
def placeVertex (T : Matrix44 K) (v : K × K × K) : Vector3 K :=
  let v := T *ᵥ ![v.1, v.2.1, v.2.2, 1]
  ![toFloat (v 0), toFloat (v 1), toFloat (v 2)]

/-- The corners of a triangle of a shape whose vertices start at `vertexIndexBase`. -/
def shiftTriangle (vertexIndexBase : ℕ) (t : ℤ × ℤ × ℤ) : ℤ × ℤ × ℤ :=
  (t.1 + vertexIndexBase, t.2.1 + vertexIndexBase, t.2.2 + vertexIndexBase)

/-- `addLinkVerticesAndTriangles`, of one shape. Both builders have this function. -/
def addShape (shapes : ℤ → ShapeInfo K) (Tparent : Matrix44 K) (s : Filling K)
    (tsi : TransformedShapeIndex K) : Filling K :=
  let T := Tparent * homogeneous tsi.transformMatrix
  let shapeInfo := shapes tsi.shapeIndex
  let vertexIndexBase := s.vertexIndex
  let s := ((triples shapeInfo.vertices).map (placeVertex toFloat T)).foldl Filling.setVertex s
  ((triples shapeInfo.triangles).map (shiftTriangle vertexIndexBase)).foldl Filling.setTriangle s

variable [CMath K]

omit toFloat in
/-- The transform of a sensor, as `calcRodrigues` and three assignments make it. -/
def sensorTransform (sensor : SensorInfo K) : Matrix44 K :=
  let R := calcRodrigues ![sensor.rotation 0, sensor.rotation 1, sensor.rotation 2]
    (sensor.rotation 3)
  !![R 0 0, R 0 1, R 0 2, sensor.translation 0;
     R 1 0, R 1 1, R 1 2, sensor.translation 1;
     R 2 0, R 2 1, R 2 2, sensor.translation 2;
     0, 0, 0, 1]

/-- `addLinkVerticesAndTriangles`. Both builders have this function. -/
def addLinkVerticesAndTriangles (shapes : ℤ → ShapeInfo K) (linkInfo : LinkInfo K)
    (coldetModel : ColdetModel K) : ColdetModel K :=
  let s := linkInfo.shapeIndices.foldl (addShape toFloat shapes 1) ⟨coldetModel, 0, 0⟩
  (linkInfo.sensors.foldl (fun s sensor ↦
    sensor.shapeIndices.foldl (addShape toFloat shapes (sensorTransform sensor)) s) s).coldetModel

omit [CMath K] in
/-- `addLinkPrimitiveInfo`. Both builders have this function. -/
def addLinkPrimitiveInfo (tform : Fin 12 → K) (shapeInfo : ShapeInfo K)
    (coldetModel : ColdetModel K) : ColdetModel K :=
  { coldetModel with
    pType := match shapeInfo.primitiveType with
      | .mesh => coldetModel.pType
      | type => type
    pParams := shapeInfo.primitiveParameters.map toFloat
    pTransform := fun i ↦ toFloat (tform i) }

omit [CMath K] toFloat in
/-- A new `ColdetModel` with its name. -/
def newColdetModel (name : String) : ColdetModel K :=
  ⟨name, [], [], .mesh, [], upperRows 1, false⟩

/-- The end of both builders. There is no result when a variable is read that has not been set. -/
def buildColdetModel (shapes : ℤ → ShapeInfo K) (linkInfo : LinkInfo K) (nshape : ℕ)
    (s : Locals K) : Option (ColdetModel K) :=
  let coldetModel := newColdetModel linkInfo.name
  if 0 < s.totalNumTriangles then
    let coldetModel := { coldetModel with
      vertices := setLength 0 coldetModel.vertices s.totalNumVertices
      triangles := setLength (0, 0, 0) coldetModel.triangles s.totalNumTriangles }
    let withPrimitive :=
      if nshape = 1 then
        s.tform.bind fun tform ↦ s.shapeIndex.map fun shapeIndex ↦
          addLinkPrimitiveInfo toFloat tform (shapes shapeIndex) coldetModel
      else some coldetModel
    withPrimitive.map fun coldetModel ↦
      { addLinkVerticesAndTriangles toFloat shapes linkInfo coldetModel with isBuilt := true }
  else some coldetModel

omit [CommRing K] [CMath K] toFloat in
/-- The number of shapes. -/
def nshape (linkInfo : LinkInfo K) : ℕ :=
  linkInfo.shapeIndices.length +
    (linkInfo.sensors.map fun sensor ↦ sensor.shapeIndices.length).sum

/-- `ModelLoaderHelper::createColdetModel`. In the loop over the sensors `shapeIndex` is another
variable. -/
def createColdetModel (shapes : ℤ → ShapeInfo K) (linkInfo : LinkInfo K) :
    Option (ColdetModel K) :=
  let s : Locals K := linkInfo.shapeIndices.foldl (Locals.keep shapes) ⟨0, 0, none, none⟩
  buildColdetModel toFloat shapes linkInfo (nshape linkInfo)
    (linkInfo.sensors.foldl (fun s sensor ↦ sensor.shapeIndices.foldl
      (fun s tsi ↦ s.count (shapes tsi.shapeIndex)) s) s)

/-- The constructor of `ColdetBody`, at one link. -/
def coldetBodyModel (shapes : ℤ → ShapeInfo K) (linkInfo : LinkInfo K) :
    Option (ColdetModel K) :=
  let s : Locals K := linkInfo.shapeIndices.foldl (Locals.keep shapes) ⟨0, 0, none, none⟩
  buildColdetModel toFloat shapes linkInfo (nshape linkInfo)
    (linkInfo.sensors.foldl (fun s sensor ↦ sensor.shapeIndices.foldl (Locals.keep shapes) s) s)

end Build

/-! ### The placed shapes -/

/-- The shapes of a link and of its sensors, with their transforms in the frame of the link. -/
def placedShapes [CommRing K] [CMath K] (shapes : ℤ → ShapeInfo K) (linkInfo : LinkInfo K) :
    List (Matrix44 K × ShapeInfo K) :=
  linkInfo.shapeIndices.map (fun tsi ↦ (homogeneous tsi.transformMatrix, shapes tsi.shapeIndex)) ++
    linkInfo.sensors.flatMap fun sensor ↦ sensor.shapeIndices.map fun tsi ↦
      (sensorTransform sensor * homogeneous tsi.transformMatrix, shapes tsi.shapeIndex)

section Mesh

variable [CommRing K] (toFloat : K → K)

/-- The vertices of a placed shape. -/
def meshVertices (x : Matrix44 K × ShapeInfo K) : List (Vector3 K) :=
  (triples x.2.vertices).map (placeVertex toFloat x.1)

omit [CommRing K] toFloat in
/-- The triangles of placed shapes, each with the corners of its own shape, when `base` vertices
stand before those of the shapes. -/
def trianglesFrom : ℕ → List (Matrix44 K × ShapeInfo K) → List (ℤ × ℤ × ℤ)
  | _, [] => []
  | base, x :: l =>
    (triples x.2.triangles).map (shiftTriangle base) ++
      trianglesFrom (base + x.2.vertices.length / 3) l

/-- The model has the mesh of the placed shapes, unless they have no triangles. -/
structure IsMesh (l : List (Matrix44 K × ShapeInfo K)) (m : ColdetModel K) : Prop where
  triangles : m.triangles = trianglesFrom 0 l
  vertices : m.vertices = if m.triangles = [] then [] else l.flatMap (meshVertices toFloat)

omit [CommRing K] toFloat in
theorem length_triples {α : Type*} : ∀ l : List α, (triples l).length = l.length / 3
  | [] => by simp [triples]
  | [_] => by simp [triples]
  | [_, _] => by simp [triples]
  | a :: b :: c :: l => by
    rw [triples, List.length_cons, length_triples l, List.length_cons, List.length_cons,
      List.length_cons]
    omega

theorem length_meshVertices (x : Matrix44 K × ShapeInfo K) :
    (meshVertices toFloat x).length = x.2.vertices.length / 3 := by
  rw [meshVertices, List.length_map, length_triples]

/-! ### Filling the arrays -/

/-- The state when `vertices` and `triangles` have been set and `n` and `k` are left. -/
def fillingOf (m : ColdetModel K) (vertices : List (Vector3 K)) (n : ℕ)
    (triangles : List (ℤ × ℤ × ℤ)) (k : ℕ) : Filling K :=
  ⟨{ m with
      vertices := vertices ++ List.replicate n 0
      triangles := triangles ++ List.replicate k (0, 0, 0) },
    vertices.length, triangles.length⟩

omit [CommRing K] toFloat in
theorem set_append_replicate {α : Type*} (l : List α) (blank a : α) (n : ℕ) :
    (l ++ List.replicate (n + 1) blank).set l.length a =
      (l ++ [a]) ++ List.replicate n blank := by
  rw [List.set_append_right _ _ le_rfl, Nat.sub_self, List.replicate_succ, List.set_cons_zero,
    List.append_assoc]
  rfl

variable (m : ColdetModel K)

section

omit toFloat

theorem foldl_setVertex (l vertices : List (Vector3 K)) (n : ℕ) (triangles : List (ℤ × ℤ × ℤ))
    (k : ℕ) :
    l.foldl Filling.setVertex (fillingOf m vertices (l.length + n) triangles k) =
      fillingOf m (vertices ++ l) n triangles k := by
  induction l generalizing vertices with
  | nil => rw [List.length_nil, Nat.zero_add, List.append_nil, List.foldl_nil]
  | cons v l ih =>
    have hset : (fillingOf m vertices (l.length + 1 + n) triangles k).setVertex v =
        fillingOf m (vertices ++ [v]) (l.length + n) triangles k := by
      rw [Nat.add_right_comm, fillingOf, Filling.setVertex, set_append_replicate, fillingOf,
        List.length_append]
      rfl
    rw [List.foldl_cons, List.length_cons, hset, ih, List.append_assoc]
    rfl

theorem foldl_setTriangle (l : List (ℤ × ℤ × ℤ)) (vertices : List (Vector3 K)) (n : ℕ)
    (triangles : List (ℤ × ℤ × ℤ)) (k : ℕ) :
    l.foldl Filling.setTriangle (fillingOf m vertices n triangles (l.length + k)) =
      fillingOf m vertices n (triangles ++ l) k := by
  induction l generalizing triangles with
  | nil => rw [List.length_nil, Nat.zero_add, List.append_nil, List.foldl_nil]
  | cons t l ih =>
    have hset : (fillingOf m vertices n triangles (l.length + 1 + k)).setTriangle t =
        fillingOf m vertices n (triangles ++ [t]) (l.length + k) := by
      rw [Nat.add_right_comm, fillingOf, Filling.setTriangle, set_append_replicate, fillingOf,
        List.length_append]
      rfl
    rw [List.foldl_cons, List.length_cons, hset, ih, List.append_assoc]
    rfl

end

/-- What a placed shape adds. -/
def addPlaced (s : Filling K) (x : Matrix44 K × ShapeInfo K) : Filling K :=
  ((triples x.2.triangles).map (shiftTriangle s.vertexIndex)).foldl Filling.setTriangle
    ((meshVertices toFloat x).foldl Filling.setVertex s)

theorem addShape_eq (shapes : ℤ → ShapeInfo K) (T : Matrix44 K) :
    addShape toFloat shapes T = fun s tsi ↦
      addPlaced toFloat s (T * homogeneous tsi.transformMatrix, shapes tsi.shapeIndex) :=
  rfl

theorem foldl_addPlaced (l : List (Matrix44 K × ShapeInfo K)) (vertices : List (Vector3 K))
    (triangles : List (ℤ × ℤ × ℤ)) :
    l.foldl (addPlaced toFloat) (fillingOf m vertices (l.flatMap (meshVertices toFloat)).length
        triangles (trianglesFrom vertices.length l).length) =
      fillingOf m (vertices ++ l.flatMap (meshVertices toFloat)) 0
        (triangles ++ trianglesFrom vertices.length l) 0 := by
  induction l generalizing vertices triangles with
  | nil =>
    rw [List.flatMap_nil, trianglesFrom, List.append_nil, List.append_nil]
    rfl
  | cons x l ih =>
    have hbase : vertices.length + x.2.vertices.length / 3 =
        (vertices ++ meshVertices toFloat x).length := by
      rw [List.length_append, length_meshVertices]
    rw [List.foldl_cons, List.flatMap_cons, trianglesFrom, List.length_append, List.length_append,
      addPlaced, foldl_setVertex, hbase]
    have hindex : (fillingOf m vertices ((meshVertices toFloat x).length +
        (l.flatMap (meshVertices toFloat)).length) triangles
          (((triples x.2.triangles).map (shiftTriangle vertices.length)).length +
            (trianglesFrom (vertices ++ meshVertices toFloat x).length l).length)).vertexIndex =
        vertices.length := rfl
    rw [hindex, foldl_setTriangle, ih, List.append_assoc, List.append_assoc]

/-! ### The two builders -/

section Builders

variable [CMath K] (shapes : ℤ → ShapeInfo K) (linkInfo : LinkInfo K)

theorem addLinkVerticesAndTriangles_eq (m : ColdetModel K) :
    addLinkVerticesAndTriangles toFloat shapes linkInfo m =
      ((placedShapes shapes linkInfo).foldl (addPlaced toFloat) ⟨m, 0, 0⟩).coldetModel := by
  rw [addLinkVerticesAndTriangles, placedShapes, List.foldl_append, List.foldl_map,
    List.foldl_flatMap]
  simp only [List.foldl_map, addShape_eq, one_mul]

omit [CommRing K] [CMath K] toFloat in
/-- The shapes of the sensors. -/
def sensorShapes (linkInfo : LinkInfo K) : List (TransformedShapeIndex K) :=
  linkInfo.sensors.flatMap SensorInfo.shapeIndices

omit [CommRing K] [CMath K] toFloat in
theorem nshape_eq : nshape linkInfo = (linkInfo.shapeIndices ++ sensorShapes linkInfo).length := by
  rw [nshape, sensorShapes, List.length_append, List.length_flatMap]

omit toFloat in
theorem map_snd_placedShapes :
    (placedShapes shapes linkInfo).map Prod.snd =
      (linkInfo.shapeIndices ++ sensorShapes linkInfo).map fun tsi ↦ shapes tsi.shapeIndex := by
  rw [placedShapes, sensorShapes, List.map_append, List.map_append, List.map_map, List.map_flatMap,
    List.map_flatMap]
  simp only [List.map_map]
  rfl

section

omit [CommRing K] [CMath K] toFloat

/-- The totals after a loop over shapes. -/
theorem totals_foldl {f : Locals K → TransformedShapeIndex K → Locals K} (shapes : ℤ → ShapeInfo K)
    (hv : ∀ s tsi, (f s tsi).totalNumVertices =
      s.totalNumVertices + (shapes tsi.shapeIndex).vertices.length / 3)
    (ht : ∀ s tsi, (f s tsi).totalNumTriangles =
      s.totalNumTriangles + (shapes tsi.shapeIndex).triangles.length / 3)
    (l : List (TransformedShapeIndex K)) (s : Locals K) :
    (l.foldl f s).totalNumVertices =
        s.totalNumVertices + (l.map fun tsi ↦ (shapes tsi.shapeIndex).vertices.length / 3).sum ∧
      (l.foldl f s).totalNumTriangles =
        s.totalNumTriangles +
          (l.map fun tsi ↦ (shapes tsi.shapeIndex).triangles.length / 3).sum := by
  induction l generalizing s with
  | nil => exact ⟨rfl, rfl⟩
  | cons tsi l ih =>
    rw [List.foldl_cons, (ih _).1, (ih _).2, List.map_cons, List.map_cons, List.sum_cons,
      List.sum_cons, hv, ht, Nat.add_assoc, Nat.add_assoc]
    exact ⟨rfl, rfl⟩

theorem length_trianglesFrom (base : ℕ) (l : List (Matrix44 K × ShapeInfo K)) :
    (trianglesFrom base l).length = (l.map fun x ↦ x.2.triangles.length / 3).sum := by
  induction l generalizing base with
  | nil => rfl
  | cons x l ih =>
    rw [trianglesFrom, List.length_append, List.length_map, length_triples, ih, List.map_cons,
      List.sum_cons]

end

omit [CMath K] in
theorem length_flatMap_meshVertices (l : List (Matrix44 K × ShapeInfo K)) :
    (l.flatMap (meshVertices toFloat)).length = (l.map fun x ↦ x.2.vertices.length / 3).sum := by
  simp only [List.length_flatMap, length_meshVertices]

/-- The locals hold the totals of the placed shapes. -/
def Locals.IsTotal (shapes : ℤ → ShapeInfo K) (linkInfo : LinkInfo K) (s : Locals K) : Prop :=
  s.totalNumVertices = ((placedShapes shapes linkInfo).flatMap (meshVertices toFloat)).length ∧
    s.totalNumTriangles = (trianglesFrom 0 (placedShapes shapes linkInfo)).length

theorem isTotal_of_sum {shapes : ℤ → ShapeInfo K} {linkInfo : LinkInfo K} {s : Locals K}
    (hv : s.totalNumVertices = ((linkInfo.shapeIndices ++ sensorShapes linkInfo).map fun tsi ↦
      (shapes tsi.shapeIndex).vertices.length / 3).sum)
    (ht : s.totalNumTriangles = ((linkInfo.shapeIndices ++ sensorShapes linkInfo).map fun tsi ↦
      (shapes tsi.shapeIndex).triangles.length / 3).sum) :
    s.IsTotal toFloat shapes linkInfo := by
  have hmap (f : ShapeInfo K → ℕ) : (placedShapes shapes linkInfo).map (fun x ↦ f x.2) =
      (linkInfo.shapeIndices ++ sensorShapes linkInfo).map fun tsi ↦ f (shapes tsi.shapeIndex) := by
    have h := congrArg (List.map f) (map_snd_placedShapes shapes linkInfo)
    rwa [List.map_map, List.map_map] at h
  refine ⟨?_, ?_⟩
  · rw [hv, length_flatMap_meshVertices, hmap fun shape ↦ shape.vertices.length / 3]
  · rw [ht, length_trianglesFrom, hmap fun shape ↦ shape.triangles.length / 3]

/-- What a builder does about a primitive. -/
def withPrimitive (shapes : ℤ → ShapeInfo K) (nshape : ℕ) (s : Locals K) (m : ColdetModel K) :
    Option (ColdetModel K) :=
  if nshape = 1 then
    s.tform.bind fun tform ↦ s.shapeIndex.map fun shapeIndex ↦
      addLinkPrimitiveInfo toFloat tform (shapes shapeIndex) m
  else some m

/-- A model with the mesh of placed shapes. -/
def withMesh (l : List (Matrix44 K × ShapeInfo K)) (m : ColdetModel K) : ColdetModel K :=
  { m with
    vertices := l.flatMap (meshVertices toFloat)
    triangles := trianglesFrom 0 l
    isBuilt := true }

theorem addLinkVerticesAndTriangles_resized (m : ColdetModel K) {n k : ℕ}
    (hn : n = ((placedShapes shapes linkInfo).flatMap (meshVertices toFloat)).length)
    (hk : k = (trianglesFrom 0 (placedShapes shapes linkInfo)).length) :
    { addLinkVerticesAndTriangles toFloat shapes linkInfo { m with
        vertices := List.replicate n 0
        triangles := List.replicate k (0, 0, 0) } with isBuilt := true } =
      withMesh toFloat (placedShapes shapes linkInfo) m := by
  have hfill := foldl_addPlaced toFloat m (placedShapes shapes linkInfo) [] []
  rw [List.length_nil, ← hn, ← hk] at hfill
  have hstart : fillingOf m [] n [] k =
      ⟨{ m with vertices := List.replicate n 0, triangles := List.replicate k (0, 0, 0) }, 0, 0⟩ :=
    rfl
  rw [addLinkVerticesAndTriangles_eq, ← hstart, hfill, fillingOf, withMesh, List.replicate_zero,
    List.replicate_zero, List.append_nil, List.append_nil, List.nil_append, List.nil_append]

omit [CommRing K] [CMath K] toFloat in
theorem setLength_nil {α : Type*} (blank : α) (n : ℕ) :
    setLength blank [] n = List.replicate n blank := by
  rw [setLength, List.take_nil, List.nil_append, List.length_nil, Nat.sub_zero]

/-- A builder whose totals are right makes the mesh of the placed shapes. -/
theorem buildColdetModel_eq {shapes : ℤ → ShapeInfo K} {linkInfo : LinkInfo K} {s : Locals K}
    (h : s.IsTotal toFloat shapes linkInfo) (nshape : ℕ) :
    buildColdetModel toFloat shapes linkInfo nshape s =
      if trianglesFrom 0 (placedShapes shapes linkInfo) = [] then
        some (newColdetModel linkInfo.name)
      else (withPrimitive toFloat shapes nshape s (newColdetModel linkInfo.name)).map
        (withMesh toFloat (placedShapes shapes linkInfo)) := by
  obtain ⟨hn, hk⟩ := h
  have hmesh (m : ColdetModel K) :=
    addLinkVerticesAndTriangles_resized toFloat shapes linkInfo m hn hk
  rw [buildColdetModel]
  dsimp only [newColdetModel]
  rw [setLength_nil, setLength_nil]
  by_cases hempty : trianglesFrom 0 (placedShapes shapes linkInfo) = []
  · rw [if_pos hempty, if_neg (by rw [hk, hempty]; exact lt_irrefl 0)]
  · rw [if_neg hempty, if_pos (by rw [hk]; exact List.length_pos_of_ne_nil hempty), withPrimitive]
    split_ifs
    · rcases s.tform with _ | tform
      · rfl
      · rcases s.shapeIndex with _ | shapeIndex
        · rfl
        · exact congrArg some (hmesh (addLinkPrimitiveInfo toFloat tform (shapes shapeIndex)
            (newColdetModel linkInfo.name)))
    · exact congrArg some (hmesh (newColdetModel linkInfo.name))

omit [CommRing K] [CMath K] toFloat in
theorem foldl_flatMap_sensors {α : Type*} (f : α → TransformedShapeIndex K → α)
    (linkInfo : LinkInfo K) (s : α) :
    linkInfo.sensors.foldl (fun s sensor ↦ sensor.shapeIndices.foldl f s) s =
      (sensorShapes linkInfo).foldl f s :=
  (List.foldl_flatMap ..).symm

/-- The locals of `createColdetModel`. -/
theorem createColdetModel_eq :
    ∃ s : Locals K, s.IsTotal toFloat shapes linkInfo ∧
      createColdetModel toFloat shapes linkInfo =
        buildColdetModel toFloat shapes linkInfo (nshape linkInfo) s ∧
      s = (sensorShapes linkInfo).foldl (fun s tsi ↦ s.count (shapes tsi.shapeIndex))
        (linkInfo.shapeIndices.foldl (Locals.keep shapes) ⟨0, 0, none, none⟩) := by
  refine ⟨_, ?_, ?_, rfl⟩
  · have hlink := totals_foldl (f := Locals.keep shapes) shapes (fun _ _ ↦ rfl)
      (fun _ _ ↦ rfl) linkInfo.shapeIndices ⟨0, 0, none, none⟩
    have hsensor := totals_foldl (f := fun s tsi ↦ s.count (shapes tsi.shapeIndex))
      shapes (fun _ _ ↦ rfl) (fun _ _ ↦ rfl) (sensorShapes linkInfo)
      (linkInfo.shapeIndices.foldl (Locals.keep shapes) ⟨0, 0, none, none⟩)
    apply isTotal_of_sum
    · rw [hsensor.1, hlink.1, List.map_append, List.sum_append, Nat.zero_add]
    · rw [hsensor.2, hlink.2, List.map_append, List.sum_append, Nat.zero_add]
  · rw [createColdetModel, foldl_flatMap_sensors]

/-- The locals of the constructor of `ColdetBody`. -/
theorem coldetBodyModel_eq :
    ∃ s : Locals K, s.IsTotal toFloat shapes linkInfo ∧
      coldetBodyModel toFloat shapes linkInfo =
        buildColdetModel toFloat shapes linkInfo (nshape linkInfo) s ∧
      s = (linkInfo.shapeIndices ++ sensorShapes linkInfo).foldl (Locals.keep shapes)
        ⟨0, 0, none, none⟩ := by
  refine ⟨_, ?_, ?_, rfl⟩
  · have h := totals_foldl (f := Locals.keep shapes) shapes (fun _ _ ↦ rfl)
      (fun _ _ ↦ rfl) (linkInfo.shapeIndices ++ sensorShapes linkInfo) ⟨0, 0, none, none⟩
    apply isTotal_of_sum
    · rw [h.1, Nat.zero_add]
    · rw [h.2, Nat.zero_add]
  · rw [coldetBodyModel, foldl_flatMap_sensors, List.foldl_append]

/-! ### The agreement -/

/-- The builders make the same model, without reading a variable that is not set; it has the mesh
of the placed shapes, and a primitive is that of the only shape, with the transform of its mesh. -/
def BuildersAgree (shapes : ℤ → ShapeInfo K) (linkInfo : LinkInfo K) : Prop :=
  ∃ m, createColdetModel toFloat shapes linkInfo = some m ∧
    coldetBodyModel toFloat shapes linkInfo = some m ∧
    IsMesh toFloat (placedShapes shapes linkInfo) m ∧
    (m.pType ≠ .mesh → ∃ x, placedShapes shapes linkInfo = [x] ∧
      m.pTransform = fun i ↦ toFloat (upperRows x.1 i))

omit [CommRing K] [CMath K] toFloat in
/-- The only shape of a link is that of a sensor, and it has a triangle. -/
def IsSensorShape (shapes : ℤ → ShapeInfo K) (linkInfo : LinkInfo K) : Prop :=
  linkInfo.shapeIndices = [] ∧ ∃ tsi, sensorShapes linkInfo = [tsi] ∧
    3 ≤ (shapes tsi.shapeIndex).triangles.length

omit [CMath K] toFloat in
theorem upperRows_homogeneous (M : Fin 12 → K) : upperRows (homogeneous M) = M := by
  ext i
  fin_cases i <;> rfl

omit [CMath K] in
theorem isMesh_withMesh (l : List (Matrix44 K × ShapeInfo K)) (m : ColdetModel K)
    (h : trianglesFrom 0 l ≠ []) : IsMesh toFloat l (withMesh toFloat l m) :=
  ⟨rfl, (if_neg h).symm⟩

omit toFloat in
theorem trianglesFrom_eq_nil_iff {shapes : ℤ → ShapeInfo K} {linkInfo : LinkInfo K}
    {tsi : TransformedShapeIndex K} (h : linkInfo.shapeIndices ++ sensorShapes linkInfo = [tsi]) :
    trianglesFrom 0 (placedShapes shapes linkInfo) = [] ↔
      ¬ 3 ≤ (shapes tsi.shapeIndex).triangles.length := by
  have hmap := map_snd_placedShapes shapes linkInfo
  rw [h, List.map_singleton] at hmap
  obtain ⟨x, hx, hshape⟩ := List.map_eq_singleton_iff.1 hmap
  rw [← List.length_eq_zero_iff, length_trianglesFrom, hx, List.map_singleton, List.sum_singleton,
    hshape]
  omega

/-- The builders agree, unless the only shape is that of a sensor. -/
theorem buildersAgree_iff (shapes : ℤ → ShapeInfo K) (linkInfo : LinkInfo K) :
    BuildersAgree toFloat shapes linkInfo ↔ ¬ IsSensorShape shapes linkInfo := by
  obtain ⟨s, hs, hcreate, hseq⟩ := createColdetModel_eq toFloat shapes linkInfo
  obtain ⟨t, ht, hbody, hteq⟩ := coldetBodyModel_eq toFloat shapes linkInfo
  rw [BuildersAgree, hcreate, hbody, buildColdetModel_eq toFloat hs, buildColdetModel_eq toFloat ht]
  by_cases hempty : trianglesFrom 0 (placedShapes shapes linkInfo) = []
  · -- without triangles nothing is set
    rw [if_pos hempty, if_pos hempty]
    refine iff_of_true ⟨_, rfl, rfl, ⟨hempty.symm, rfl⟩, fun h ↦ absurd rfl h⟩ ?_
    rintro ⟨hlink, tsi, htsi, hthree⟩
    exact (trianglesFrom_eq_nil_iff (by rw [hlink, htsi]; rfl)).1 hempty hthree
  rw [if_neg hempty, if_neg hempty, withPrimitive, withPrimitive]
  by_cases hone : nshape linkInfo = 1
  · rw [if_pos hone, if_pos hone]
    rw [nshape_eq] at hone
    obtain ⟨tsi, hall⟩ := List.length_eq_one_iff.1 hone
    rcases hlink : linkInfo.shapeIndices with _ | ⟨tsi', l⟩
    · -- the shape is that of a sensor, and the first builder has not kept its transform
      have hsensor : sensorShapes linkInfo = [tsi] := by rw [← hall, hlink]; rfl
      have hnone : s.tform = none := by rw [hseq, hlink, hsensor]; rfl
      refine iff_of_false ?_ (not_not.2 ⟨hlink, tsi, hsensor, ?_⟩)
      · rintro ⟨m, hm, -⟩
        rw [hnone] at hm
        nomatch hm
      · exact not_not.1 (mt (trianglesFrom_eq_nil_iff hall).2 hempty)
    · -- the shape is that of the link
      rw [hlink, List.cons_append] at hall
      obtain ⟨rfl, hnil⟩ := List.cons_eq_cons.1 hall
      obtain ⟨rfl, hsensor⟩ := List.append_eq_nil_iff.1 hnil
      have hst : s = t := by rw [hseq, hteq, hlink, hsensor]; rfl
      have htform : t.tform = some tsi'.transformMatrix := by rw [hteq, hlink, hsensor]; rfl
      have hindex : t.shapeIndex = some tsi'.shapeIndex := by rw [hteq, hlink, hsensor]; rfl
      have hplaced : placedShapes shapes linkInfo =
          [(homogeneous tsi'.transformMatrix, shapes tsi'.shapeIndex)] := by
        have hsensors := List.flatMap_eq_nil_iff.1 hsensor
        rw [placedShapes, hlink, List.flatMap_eq_nil_iff.2 fun sensor h ↦ by
          rw [hsensors sensor h, List.map_nil]]
        rfl
      refine iff_of_true ?_ fun h ↦ ?_
      · rw [hst, htform, hindex]
        refine ⟨_, rfl, rfl, isMesh_withMesh toFloat _ _ hempty, fun _ ↦ ⟨_, hplaced, ?_⟩⟩
        rw [upperRows_homogeneous]
        rfl
      · exact absurd (h.1.symm.trans hlink) nofun
  · rw [if_neg hone, if_neg hone]
    refine iff_of_true ⟨_, rfl, rfl, isMesh_withMesh toFloat _ _ hempty, fun h ↦ absurd rfl h⟩ ?_
    rintro ⟨hlink, tsi, htsi, -⟩
    exact hone (by rw [nshape_eq, hlink, htsi]; rfl)

end Builders

end Mesh

/-- A link without shapes, and with a camera that is a box with a triangle. -/
def cameraLink : LinkInfo ℚ :=
  ⟨"HEAD", [], [⟨![0, 0, 1], 0, [⟨![1, 0, 0, 0, 0, 1, 0, 0, 0, 0, 1, 0], -1, 0⟩]⟩]⟩

/-- The box of the camera. -/
def cameraShape : ShapeInfo ℚ :=
  ⟨"", .box, [1, 1, 1], [0, 0, 0, 1, 0, 0, 0, 1, 0], [0, 1, 2], 0⟩

/-- For the shape of a sensor, `createColdetModel` reads a transform that it has not set. -/
theorem not_buildersAgree_camera : ¬ BuildersAgree id (fun _ ↦ cameraShape) cameraLink := by
  rintro ⟨m, hm, -⟩
  have hnone : createColdetModel id (fun _ ↦ cameraShape) cameraLink = none := rfl
  exact absurd (hnone.symm.trans hm) nofun

end OpenHRP.LinkColdetModel
