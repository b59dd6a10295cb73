import OpenHRP.Foundations.KeptEntries
import OpenHRP.MeshShaper.IndexedFaceSet

/-!
# The corners and faces of the triangles

Each corner of a triangle that `convertIndexedFaceSet` writes comes from a corner of a face: from an
entry of the coordinate indices, which has its own colour, normal and texture coordinate. The
program notes its position as the place where the face begins plus the number of the corner among
those that it has kept, so that an index beyond the coordinates moves the corners after it.

The triangles have the attributes of the corners from which they are made if and only if no corner
is moved and each has a value in the input (`keepsAttributes_iff`).
-/

namespace OpenHRP.TriangleMeshShaper

/-! ### Faces and corners -/

/-- A face: its number, the position of its first index, and its indices. -/
structure Face where
  number : ℕ
  top : ℕ
  indices : List ℤ
  deriving DecidableEq

namespace Face

def push (face : Face) (index : ℤ) : Face :=
  { face with indices := face.indices ++ [index] }

/-- The face after a terminator. -/
def next (face : Face) : Face :=
  ⟨face.number + 1, face.top + face.indices.length + 1, []⟩

end Face

/-- The faces that are terminated, the first of which has been begun. -/
def facesFrom (face : Face) : List ℤ → List Face
  | [] => []
  | index :: l => if index < 0 then face :: facesFrom face.next l else facesFrom (face.push index) l

/-- The faces of a list of coordinate indices. -/
def facesOf (coordIndex : List ℤ) : List Face :=
  facesFrom ⟨0, 0, []⟩ coordIndex

namespace Face

variable (numVertices : ℕ) (face : Face)

/-- The corners that are vertices, with their places in the face. -/
def corners : List (ℤ × ℕ) :=
  keptEntries (fun index ↦ index < (numVertices : ℤ)) face.indices

def polygon : List ℕ :=
  (face.corners numVertices).map fun corner ↦ corner.1.toNat

/-- The place in the face of the corner with a local index. -/
def offset (localIndex : ℕ) : ℕ :=
  ((face.corners numVertices).getD localIndex (0, 0)).2

/-- The position of the corner with a local index. -/
def position (localIndex : ℕ) : ℕ :=
  face.top + face.offset numVertices localIndex

section Triangles

variable {K : Type*} [Field K] [LinearOrder K] [CMath K]

/-- The triangles of a face, as local indices in the order in which they are written. -/
def triangles (vertices : List (Vector3 K)) (ccw : Bool) : List (ℕ × ℕ × ℕ) :=
  ((Triangulator.apply vertices (face.polygon vertices.length)).map fun t ↦
    (List.range t.numTriangles).map (FaceReader.localIndices ccw t.triangles)).getD []

end Triangles

end Face

/-- The triangle of what `f` gives for the local indices. -/
def mapTriangle (f : ℕ → ℕ) (t : ℕ × ℕ × ℕ) : ℕ × ℕ × ℕ :=
  (f t.1, f t.2.1, f t.2.2)

/-- The vertex `k` of a triangle. -/
def triangleCorner (t : ℕ × ℕ × ℕ) : ℕ → ℕ
  | 0 => t.1
  | 1 => t.2.1
  | _ => t.2.2

section Triangles

variable {K : Type*} [Field K] [LinearOrder K] [CMath K]

/-- The triangles of the faces, each with its face. -/
def cutTriangles (vertices : List (Vector3 K)) (ccw : Bool) (faces : List Face) :
    List (Face × (ℕ × ℕ × ℕ)) :=
  faces.flatMap fun face ↦ (face.triangles vertices ccw).map (face, ·)

/-- The triangles that are written for a face set. -/
def writtenTriangles (faceSet : VrmlIndexedFaceSet K) : List (Face × (ℕ × ℕ × ℕ)) :=
  cutTriangles faceSet.coord faceSet.ccw (facesOf faceSet.coordIndex)

end Triangles

theorem triangleCorner_mapTriangle (f : ℕ → ℕ) (t : ℕ × ℕ × ℕ) (k : ℕ) :
    triangleCorner (mapTriangle f t) k = f (triangleCorner t k) := by
  rcases k with - | - | k <;> rfl

/-- The entry of a list of triangles for a vertex. -/
theorem getElem?_indexList {T : List (ℕ × ℕ × ℕ)} {t : ℕ × ℕ × ℕ} {j k : ℕ} (ht : T[j]? = some t)
    (hk : k < 3) : (indexList T)[4 * j + k]? = some (triangleCorner t k : ℤ) := by
  induction T generalizing j with
  | nil => exact absurd ht (Option.some_ne_none _).symm
  | cons u T ih =>
    rw [indexList_cons]
    rcases j with - | j
    · obtain rfl := Option.some.inj ht
      interval_cases k <;> rfl
    · rw [show 4 * (j + 1) + k = 4 * j + k + 1 + 1 + 1 + 1 by omega]
      exact ih ht

/-! ### Reading the faces -/

namespace Face

variable {numVertices : ℕ} {face : Face}

theorem polygon_eq : face.polygon numVertices =
    (face.indices.filter fun index ↦ index < (numVertices : ℤ)).map Int.toNat := by
  rw [← map_fst_keptEntries, List.map_map]
  rfl

/-- The vertex at a local index stands at the place of its corner. -/
theorem getElem?_offset {u : ℕ} (hu : u < (face.polygon numVertices).length) :
    ∃ index : ℤ, face.indices[face.offset numVertices u]? = some index ∧ index < numVertices ∧
      (face.polygon numVertices).getD u 0 = index.toNat := by
  have hu' : u < (face.corners numVertices).length := by rwa [polygon, List.length_map] at hu
  refine ⟨(face.corners numVertices)[u].1, ?_, ?_, ?_⟩
  · rw [offset, List.getD_eq_getElem _ _ hu']
    exact getElem?_of_mem_keptEntries (List.getElem_mem hu')
  · have hmem : (face.corners numVertices)[u] ∈
        keptEntries (fun index : ℤ ↦ decide (index < (numVertices : ℤ))) face.indices :=
      List.getElem_mem hu'
    have hkeep := keep_of_mem_keptEntries hmem
    exact of_decide_eq_true hkeep
  · rw [List.getD_eq_getElem _ _ hu]
    exact List.getElem_map _

/-- The place of a corner is its local index if and only if no index before it is beyond the
coordinates. -/
theorem offset_eq_iff {u : ℕ} (hu : u < (face.polygon numVertices).length) :
    face.offset numVertices u = u ↔
      ∀ index ∈ face.indices.take (face.offset numVertices u), index < numVertices := by
  have hu' : u < (face.corners numVertices).length := by rwa [polygon, List.length_map] at hu
  have hiff := snd_getElem_keptEntries_eq_iff (List.getElem?_eq_getElem hu')
  rw [offset, List.getD_eq_getElem _ _ hu']
  exact hiff.trans (forall₂_congr fun _ _ ↦ decide_eq_true_iff)

theorem polygon_push (numVertices : ℕ) (face : Face) (index : ℤ) :
    (face.push index).polygon numVertices =
    face.polygon numVertices ++ if index < numVertices then [index.toNat] else [] := by
  rw [polygon_eq, polygon_eq, push, List.filter_append, List.map_append]
  refine congrArg (_ ++ ·) ?_
  split_ifs with hlt
  · rw [List.filter_cons_of_pos (by simpa using hlt)]
    rfl
  · rw [List.filter_cons_of_neg (by simpa using hlt)]
    rfl

end Face

/-- The vertices of a triangle of a face. -/
def writtenIndices (numVertices : ℕ) (c : Face × (ℕ × ℕ × ℕ)) : ℕ × ℕ × ℕ :=
  mapTriangle (fun k ↦ (c.1.polygon numVertices).getD k 0) c.2

/-- The positions that are noted for a triangle of a face. -/
def notedPositions (c : Face × (ℕ × ℕ × ℕ)) : ℕ × ℕ × ℕ :=
  mapTriangle (c.1.top + ·) c.2

section Reading

variable {K : Type*} [Field K] [LinearOrder K] [CMath K] {vertices : List (Vector3 K)} {ccw : Bool}

/-- The state when some triangles have been written and a face has been begun. -/
structure IsReading (numVertices : ℕ) (s : FaceReader) (cuts : List (Face × (ℕ × ℕ × ℕ)))
    (face : Face) : Prop where
  i : s.i = face.top + face.indices.length
  polygon : s.polygon = face.polygon numVertices
  orgFaceIndex : s.orgFaceIndex = face.number
  polygonTopIndexPosition : s.polygonTopIndexPosition = face.top
  indices : s.indices = indexList (cuts.map (writtenIndices numVertices))
  indexPositionMap : s.indexPositionMap = indexList (cuts.map notedPositions)
  faceIndexMap : s.faceIndexMap = cuts.map fun c ↦ c.1.number

theorem isReading_start (numVertices : ℕ) : IsReading numVertices .start [] ⟨0, 0, []⟩ :=
  ⟨rfl, rfl, rfl, rfl, rfl, rfl, rfl⟩

namespace IsReading

variable {s : FaceReader} {cuts : List (Face × (ℕ × ℕ × ℕ))} {face : Face}

/-- An index goes to the face, and to the polygon if it is a vertex. -/
theorem push (h : IsReading vertices.length s cuts face) (ccw : Bool) {index : ℤ}
    (hindex : 0 ≤ index) :
    ∃ s', readIndex vertices ccw s index = some s' ∧
      IsReading vertices.length s' cuts (face.push index) := by
  have hlen : s.i + 1 = face.top + (face.push index).indices.length := by
    rw [h.i, Face.push, List.length_append, List.length_singleton, Nat.add_assoc]
  have hpolygon := Face.polygon_push vertices.length face index
  rw [readIndex]
  split_ifs with hge
  · rw [if_neg (by omega), List.append_nil] at hpolygon
    exact ⟨_, rfl, hlen, h.polygon.trans hpolygon.symm, h.orgFaceIndex, h.polygonTopIndexPosition,
      h.indices, h.indexPositionMap, h.faceIndexMap⟩
  · rw [if_pos (by omega)] at hpolygon
    refine ⟨_, rfl, hlen, ?_, h.orgFaceIndex, h.polygonTopIndexPosition, h.indices,
      h.indexPositionMap, h.faceIndexMap⟩
    rw [hpolygon, h.polygon]

/-- A terminator writes the triangles of the face. -/
theorem next (h : IsReading vertices.length s cuts face) (ccw : Bool) {index : ℤ}
    (hindex : index < 0) :
    ∃ s', readIndex vertices ccw s index = some s' ∧
      IsReading vertices.length s'
        (cuts ++ (face.triangles vertices ccw).map (face, ·)) face.next := by
  obtain ⟨t, ht, -, -⟩ := Triangulator.exists_triangulate
    (Triangulator.earTests vertices s.polygon) s.polygon.length
  have htriangles : face.triangles vertices ccw =
      (List.range t.numTriangles).map (FaceReader.localIndices ccw t.triangles) := by
    rw [Face.triangles, ← h.polygon, Triangulator.apply, ht]
    rfl
  rw [readIndex, if_neg (by omega), if_neg (by omega), Triangulator.apply, ht]
  refine ⟨_, rfl, ?_, rfl, ?_, ?_, ?_, ?_, ?_⟩
  · exact congrArg (· + 1) h.i
  · exact congrArg (· + 1) h.orgFaceIndex
  · exact congrArg (· + 1) h.i
  · rw [s.indices_pushFace ccw t h.indices, List.map_append, htriangles, h.polygon, List.map_map,
      List.map_map, List.map_map]
    rfl
  · rw [s.indexPositionMap_pushFace ccw t h.indexPositionMap, List.map_append, htriangles,
      h.polygonTopIndexPosition, List.map_map, List.map_map, List.map_map]
    rfl
  · rw [FaceReader.pushFace, h.faceIndexMap, h.orgFaceIndex, List.map_append, htriangles,
      List.map_map, List.map_map]
    refine congrArg (_ ++ ·) (List.eq_replicate_iff.2 ⟨?_, fun number hnumber ↦ ?_⟩).symm
    · rw [List.length_map, List.length_range]
    · obtain ⟨j, -, rfl⟩ := List.mem_map.1 hnumber
      rfl

theorem foldlM (h : IsReading vertices.length s cuts face) (l : List ℤ) :
    ∃ s' face', l.foldlM (readIndex vertices ccw) s = some s' ∧
      IsReading vertices.length s' (cuts ++ cutTriangles vertices ccw (facesFrom face l))
        face' := by
  induction l generalizing s cuts face with
  | nil => exact ⟨s, face, rfl, by rwa [facesFrom, cutTriangles, List.flatMap_nil,
      List.append_nil]⟩
  | cons index l ih =>
    rw [List.foldlM_cons, facesFrom]
    split_ifs with hindex
    · obtain ⟨s₁, hs₁, h₁⟩ := h.next ccw hindex
      obtain ⟨s', face', hs', h'⟩ := ih h₁
      rw [List.append_assoc] at h'
      exact ⟨s', face', by rw [hs₁]; exact hs', h'⟩
    · obtain ⟨s₁, hs₁, h₁⟩ := h.push ccw (Int.not_lt.1 hindex)
      obtain ⟨s', face', hs', h'⟩ := ih h₁
      exact ⟨s', face', by rw [hs₁]; exact hs', h'⟩

end IsReading

/-- The faces are read, and their triangles are written. -/
theorem exists_readFaces (vertices : List (Vector3 K)) (ccw : Bool) (coordIndex : List ℤ) :
    ∃ s face, readFaces vertices ccw coordIndex = some s ∧
      IsReading vertices.length s (cutTriangles vertices ccw (facesOf coordIndex)) face :=
  (isReading_start vertices.length).foldlM coordIndex

end Reading

/-! ### The value of an attribute at a corner -/

section Assigned

variable {V : Type*}

/-- The value with an index, if there is one. -/
def elementAt (values : List V) (index : ℤ) : Option V :=
  if index < 0 then none else values[index.toNat]?

/-- The value that an attribute has at a corner, by its position, and in a face, by its number. An
attribute without indices has a value for each vertex, or for each face. -/
def assigned (values : List V) (indices : List ℤ) (perVertex : Bool) (coordIndex : List ℤ)
    (position face : ℕ) : Option V :=
  if indices = [] then
    if perVertex then coordIndex[position]?.bind (elementAt values) else values[face]?
  else (indices[if perVertex then position else face]?).bind (elementAt values)

theorem elementAt_map {W : Type*} (f : V → W) (values : List V) (index : ℤ) :
    elementAt (values.map f) index = (elementAt values index).map f := by
  rw [elementAt, elementAt, List.getElem?_map]
  split_ifs <;> rfl

theorem assigned_map {W : Type*} (f : V → W) (values : List V) (indices : List ℤ)
    (perVertex : Bool) (coordIndex : List ℤ) (position face : ℕ) :
    assigned (values.map f) indices perVertex coordIndex position face =
      (assigned values indices perVertex coordIndex position face).map f := by
  have hbind (index : Option ℤ) : index.bind (elementAt (values.map f)) =
      (index.bind (elementAt values)).map f := by
    cases index with
    | none => rfl
    | some index => exact elementAt_map f values index
  rw [assigned, assigned, hbind, hbind, List.getElem?_map]
  split_ifs <;> rfl

/-- Without values nothing is assigned. -/
theorem assigned_nil (indices : List ℤ) (perVertex : Bool) (coordIndex : List ℤ)
    (position face : ℕ) :
    assigned ([] : List V) indices perVertex coordIndex position face = none := by
  have hbind (index : Option ℤ) : index.bind (elementAt ([] : List V)) = none := by
    cases index with
    | none => rfl
    | some index => exact ite_self none
  rw [assigned, hbind, hbind]
  split_ifs <;> rfl

/-- An index of a value is not negative and within the size. -/
theorem isSome_elementAt_iff {values : List V} {index : ℤ} :
    (elementAt values index).isSome ↔ 0 ≤ index ∧ index < values.length := by
  rw [elementAt]
  split_ifs with hneg
  · exact ⟨fun h ↦ absurd h Bool.false_ne_true, fun h ↦ absurd h.1 (by omega)⟩
  · rw [isSome_getElem?]
    omega

end Assigned

/-- An attribute has a value at each of the places. -/
def IsGiven {V : Type*} (places : List (ℕ × ℕ × ℕ × ℕ)) (value : ℕ → ℕ → Option V) : Prop :=
  ∀ p ∈ places, ∀ k < 3, (value (triangleCorner p.2 k) p.1).isSome

instance {V : Type*} (places : List (ℕ × ℕ × ℕ × ℕ)) (value : ℕ → ℕ → Option V) :
    Decidable (IsGiven places value) :=
  inferInstanceAs (Decidable (∀ p ∈ places, ∀ k < 3,
    (value (triangleCorner p.2 k) p.1).isSome = true))

/-- The values at the corners of the triangles are those at the places. -/
def IsCarried {V : Type*} (places : List (ℕ × ℕ × ℕ × ℕ)) (org new : ℕ → ℕ → Option V) : Prop :=
  ∀ j p, places[j]? = some p → ∀ k < 3, new (4 * j + k) j = org (triangleCorner p.2 k) p.1

/-! ### Remapping along the positions -/

theorem mem_indexList {T : List (ℕ × ℕ × ℕ)} {p : ℤ} (hp : p ∈ indexList T) :
    p < 0 ∨ ∃ t ∈ T, ∃ k < 3, p = triangleCorner t k := by
  obtain ⟨t, ht, hp⟩ := List.mem_flatMap.1 hp
  rw [addTriangle] at hp
  simp only [List.mem_cons, List.not_mem_nil, or_false] at hp
  rcases hp with rfl | rfl | rfl | rfl
  · exact .inr ⟨t, ht, 0, by decide, rfl⟩
  · exact .inr ⟨t, ht, 1, by decide, rfl⟩
  · exact .inr ⟨t, ht, 2, by decide, rfl⟩
  · exact .inl (by decide)

/-- The index at a position. -/
def indexAt (orgIndices : List ℤ) (position : ℤ) : ℤ :=
  if position < 0 then -1 else orgIndices.getD position.toNat 0

/-- Indices that are within the size are taken from the positions. -/
theorem remapIndices_eq_some {valueName : String} {numElements : ℕ}
    {orgIndices positions : List ℤ}
    (h : ∀ p ∈ positions, p < 0 ∨ ∃ index, orgIndices[p.toNat]? = some index ∧
      index < numElements) :
    remapIndices valueName numElements orgIndices positions =
      some (true, positions.map (indexAt orgIndices), []) := by
  have hmap : ((List.range positions.length).mapM fun i ↦
      remapIndex numElements orgIndices (positions.getD i 0) i) =
        some (positions.map fun p ↦ (indexAt orgIndices p, true)) := by
    refine mapM_range_eq_some.2 ⟨List.length_map _, fun i hi ↦ ?_⟩
    rw [List.getElem?_map, List.getElem?_eq_getElem hi, List.getD_eq_getElem _ _ hi,
      Option.map_some, remapIndex, indexAt]
    split_ifs with hneg
    · rfl
    · obtain ⟨index, hindex, hlt⟩ := (h _ (List.getElem_mem hi)).resolve_left hneg
      have hget : orgIndices.getD positions[i].toNat 0 = index := by
        rw [List.getD_eq_getElem?_getD, hindex, Option.getD_some]
      rw [hindex, Option.map_some, if_pos hlt, hget]
  rw [remapIndices, hmap, Option.map_some, List.map_map, List.all_map, List.filter_map]
  refine congrArg some (Prod.ext ?_ (Prod.ext rfl ?_))
  · exact List.all_eq_true.2 fun _ _ ↦ rfl
  · refine List.map_eq_nil_iff.2 (List.map_eq_nil_iff.2 (List.filter_eq_nil_iff.2 fun _ _ ↦ ?_))
    exact Bool.false_ne_true

/-- Values for each face are taken from the faces if there are enough of them. -/
theorem remapDirectMapObjectsPerFaces_eq {V : Type*} [Zero V] {orgValues : List V}
    {valueName : String} {faceIndexMap : List ℕ} (h : ∀ f ∈ faceIndexMap, f < orgValues.length) :
    remapDirectMapObjectsPerFaces orgValues valueName faceIndexMap =
      (true, faceIndexMap.map fun f ↦ orgValues.getD f 0, []) := by
  have hfound : faceIndexMap.takeWhile (· < orgValues.length) = faceIndexMap :=
    List.takeWhile_eq_self_iff.2 fun f hf ↦ decide_eq_true (h f hf)
  rw [remapDirectMapObjectsPerFaces, hfound, if_neg (Nat.lt_irrefl _)]
  refine congrArg (true, ·, []) (List.ext_getElem ?_ fun i h₁ h₂ ↦ ?_)
  · rw [List.length_map, List.length_map, List.length_range]
  · have hi : i < faceIndexMap.length := by rwa [List.length_map] at h₂
    rw [List.getElem_map, List.getElem_range, if_pos hi, List.getElem_map,
      List.getD_eq_getElem _ _ hi]

/-- The maps note the face and the three positions of each triangle, and the indices written are
those of the coordinates at the positions. -/
structure Notes (s : FaceReader) (coordIndex : List ℤ) (places : List (ℕ × ℕ × ℕ × ℕ)) :
    Prop where
  indexPositionMap : s.indexPositionMap = indexList (places.map Prod.snd)
  faceIndexMap : s.faceIndexMap = places.map Prod.fst
  indices : ∀ j p, places[j]? = some p → ∀ k < 3,
    s.indices[4 * j + k]? = coordIndex[triangleCorner p.2 k]?

namespace Notes

variable {s : FaceReader} {coordIndex : List ℤ} {places : List (ℕ × ℕ × ℕ × ℕ)}

/-- The indices at the positions are found at the corners of the triangles. -/
theorem getElem?_map_indexAt (h : Notes s coordIndex places) {orgIndices : List ℤ} {j k : ℕ}
    {p : ℕ × ℕ × ℕ × ℕ} (hp : places[j]? = some p) (hk : k < 3)
    (hpos : triangleCorner p.2 k < orgIndices.length) :
    (s.indexPositionMap.map (indexAt orgIndices))[4 * j + k]? =
      orgIndices[triangleCorner p.2 k]? := by
  have hT : (places.map Prod.snd)[j]? = some p.2 := by rw [List.getElem?_map, hp, Option.map_some]
  rw [h.indexPositionMap, List.getElem?_map, getElem?_indexList hT hk, Option.map_some, indexAt,
    if_neg (by omega), Int.toNat_natCast, List.getD_eq_getElem _ _ hpos,
    List.getElem?_eq_getElem hpos]

variable {V : Type*} {values : List V} {indices : List ℤ} {perVertex : Bool}

/-- The indices that are remapped at the corners of the triangles keep the values. -/
theorem exists_remapIndices_positions (h : Notes s coordIndex places) (valueName : String)
    (hne : indices ≠ []) (hassigned : IsGiven places (assigned values indices true coordIndex)) :
    ∃ new, remapIndices valueName values.length indices s.indexPositionMap =
        some (true, new, []) ∧
      IsCarried places (assigned values indices true coordIndex)
        (assigned values new true s.indices) := by
  have hplace : ∀ p ∈ places, ∀ k < 3, ∃ index, indices[triangleCorner p.2 k]? = some index ∧
      index < values.length := by
    intro p hp k hk
    have hsome := hassigned p hp k hk
    rw [assigned, if_neg hne, if_pos rfl] at hsome
    obtain ⟨v, hv⟩ := Option.isSome_iff_exists.1 hsome
    obtain ⟨index, hindex, hv⟩ := Option.bind_eq_some_iff.1 hv
    exact ⟨index, hindex, (isSome_elementAt_iff.1 (hv ▸ rfl)).2⟩
  refine ⟨_, remapIndices_eq_some fun p hp ↦ ?_, fun j p hp k hk ↦ ?_⟩
  · rw [h.indexPositionMap] at hp
    rcases mem_indexList hp with hneg | ⟨t, ht, k, hk, rfl⟩
    · exact .inl hneg
    · obtain ⟨q, hq, rfl⟩ := List.mem_map.1 ht
      exact .inr (hplace q hq k hk)
  · obtain ⟨index, hindex, -⟩ := hplace p (List.mem_of_getElem? hp) k hk
    have hlt : triangleCorner p.2 k < indices.length := (List.getElem?_eq_some_iff.1 hindex).1
    have hnew := h.getElem?_map_indexAt hp hk hlt
    have hne' : s.indexPositionMap.map (indexAt indices) ≠ [] := fun hnil ↦ by
      rw [hnil, hindex] at hnew
      exact absurd hnew (Option.some_ne_none _).symm
    rw [assigned, assigned, if_neg hne, if_neg hne', if_pos rfl, if_pos rfl, hnew]

/-- The indices that are remapped for the faces keep the values. -/
theorem exists_remapIndices_faces (h : Notes s coordIndex places) (valueName : String)
    (hne : indices ≠ []) (hassigned : IsGiven places (assigned values indices false coordIndex)) :
    ∃ new, remapIndices valueName values.length indices (s.faceIndexMap.map Nat.cast) =
        some (true, new, []) ∧
      IsCarried places (assigned values indices false coordIndex)
        (assigned values new false s.indices) := by
  have hplace : ∀ p ∈ places, ∃ index, indices[p.1]? = some index ∧ index < values.length := by
    intro p hp
    have hsome := hassigned p hp 0 (by decide)
    rw [assigned, if_neg hne, if_neg Bool.false_ne_true] at hsome
    obtain ⟨v, hv⟩ := Option.isSome_iff_exists.1 hsome
    obtain ⟨index, hindex, hv⟩ := Option.bind_eq_some_iff.1 hv
    exact ⟨index, hindex, (isSome_elementAt_iff.1 (hv ▸ rfl)).2⟩
  refine ⟨_, remapIndices_eq_some fun p hp ↦ ?_, fun j p hp k hk ↦ ?_⟩
  · rw [h.faceIndexMap, List.map_map] at hp
    obtain ⟨q, hq, rfl⟩ := List.mem_map.1 hp
    exact .inr (hplace q hq)
  · obtain ⟨index, hindex, -⟩ := hplace p (List.mem_of_getElem? hp)
    have hlt : p.1 < indices.length := (List.getElem?_eq_some_iff.1 hindex).1
    have hnew : ((s.faceIndexMap.map Nat.cast).map (indexAt indices))[j]? = indices[p.1]? := by
      rw [h.faceIndexMap, List.map_map, List.map_map, List.getElem?_map, hp, Option.map_some,
        List.getElem?_eq_getElem hlt]
      refine congrArg some ?_
      dsimp only [Function.comp_apply]
      rw [indexAt, if_neg (by omega), Int.toNat_natCast, List.getD_eq_getElem _ _ hlt]
    have hne' : (s.faceIndexMap.map Nat.cast).map (indexAt indices) ≠ [] := fun hnil ↦ by
      rw [hnil, hindex] at hnew
      exact absurd hnew (Option.some_ne_none _).symm
    rw [assigned, assigned, if_neg hne, if_neg hne', if_neg Bool.false_ne_true,
      if_neg Bool.false_ne_true, hnew]

/-- A value for each vertex needs no new order, as the triangles have the vertices of the
corners. -/
theorem isCarried_vertices (h : Notes s coordIndex places) :
    IsCarried places (assigned values [] true coordIndex) (assigned values [] true s.indices) := by
  intro j p hp k hk
  rw [assigned, assigned, if_pos rfl, if_pos rfl, if_pos rfl, if_pos rfl, h.indices j p hp k hk]

/-- An attribute that the input has at each corner is carried to the triangles. -/
theorem exists_checkAndRemapIndices [Zero V] (h : Notes s coordIndex places)
    (valueName : String) (numVertices : ℕ)
    (hassigned : values ≠ [] → IsGiven places (assigned values indices perVertex coordIndex)) :
    ∃ r, checkAndRemapIndices valueName numVertices s values indices perVertex = some r ∧
      (values ≠ [] → IsCarried places (assigned values indices perVertex coordIndex)
        (assigned r.values r.indices perVertex s.indices)) := by
  rw [checkAndRemapIndices]
  dsimp only
  split_ifs with h0 hne hempty hper hlt hper
  · exact ⟨_, rfl, fun hvalues ↦ absurd (List.length_eq_zero_iff.1 h0) hvalues⟩
  · exact ⟨_, rfl, fun hvalues ↦ absurd (List.length_eq_zero_iff.1 h0) hvalues⟩
  · subst hempty hper
    exact ⟨_, rfl, fun _ ↦ h.isCarried_vertices⟩
  · subst hempty hper
    exact ⟨_, rfl, fun _ ↦ h.isCarried_vertices⟩
  · obtain rfl := Bool.eq_false_iff.2 hper
    subst hempty
    have hvalues : values ≠ [] := fun hnil ↦ h0 (List.length_eq_zero_iff.2 hnil)
    have hface : ∀ p ∈ places, p.1 < values.length := by
      intro p hp
      have hsome := hassigned hvalues p hp 0 (by decide)
      rwa [assigned, if_pos rfl, if_neg Bool.false_ne_true, isSome_getElem?] at hsome
    have hfaces : ∀ f ∈ s.faceIndexMap, f < values.length := by
      intro f hf
      rw [h.faceIndexMap] at hf
      obtain ⟨p, hp, rfl⟩ := List.mem_map.1 hf
      exact hface p hp
    rw [remapDirectMapObjectsPerFaces_eq hfaces]
    refine ⟨_, rfl, fun _ j p hp k hk ↦ ?_⟩
    have hlt := hface p (List.mem_of_getElem? hp)
    rw [assigned, assigned, if_pos rfl, if_pos rfl, if_neg Bool.false_ne_true,
      if_neg Bool.false_ne_true, h.faceIndexMap, List.map_map, List.getElem?_map, hp,
      Option.map_some, List.getElem?_eq_getElem hlt]
    exact congrArg some (List.getD_eq_getElem _ _ hlt)
  · have hvalues : values ≠ [] := fun hnil ↦ h0 (List.length_eq_zero_iff.2 hnil)
    subst hper
    obtain ⟨new, hnew, hcarried⟩ := h.exists_remapIndices_positions valueName hempty
      (hassigned hvalues)
    exact ⟨_, by rw [hnew]; rfl, fun _ ↦ hcarried⟩
  · have hvalues : values ≠ [] := fun hnil ↦ h0 (List.length_eq_zero_iff.2 hnil)
    obtain rfl := Bool.eq_false_iff.2 hper
    obtain ⟨new, hnew, hcarried⟩ := h.exists_remapIndices_faces valueName hempty
      (hassigned hvalues)
    exact ⟨_, by rw [hnew]; rfl, fun _ ↦ hcarried⟩

/-- Texture coordinates that the input has at each corner are carried to the triangles. -/
theorem exists_setTexCoordIndex (h : Notes s coordIndex places) {texCoord : Option (List V)}
    (hassigned : texCoord.isSome →
      IsGiven places (assigned (texCoord.getD []) indices true coordIndex)) :
    ∃ tex, setTexCoordIndex s texCoord indices = some tex ∧
      (texCoord.isSome → IsCarried places (assigned (texCoord.getD []) indices true coordIndex)
        (assigned (texCoord.getD []) tex.2.1 true s.indices)) := by
  cases texCoord with
  | none => exact ⟨_, rfl, fun hsome ↦ absurd hsome Bool.false_ne_true⟩
  | some point =>
    have hassigned := hassigned rfl
    rw [setTexCoordIndex]
    split_ifs with hempty
    · subst hempty
      refine ⟨_, rfl, fun _ j p hp k hk ↦ ?_⟩
      have hindex := h.indices j p hp k hk
      have hsome := hassigned p (List.mem_of_getElem? hp) k hk
      rw [assigned, if_pos rfl, if_pos rfl] at hsome ⊢
      obtain ⟨v, hv⟩ := Option.isSome_iff_exists.1 hsome
      obtain ⟨index, hget, -⟩ := Option.bind_eq_some_iff.1 hv
      have hne : s.indices ≠ [] := fun hnil ↦ by
        rw [hnil, hget] at hindex
        exact absurd hindex (Option.some_ne_none _).symm
      rw [assigned, if_neg hne, if_pos rfl, if_pos rfl, hindex]
    · obtain ⟨new, hnew, hcarried⟩ := h.exists_remapIndices_positions "texCoordIndex" hempty
        hassigned
      exact ⟨_, hnew, fun _ ↦ hcarried⟩

end Notes

/-! ### The corners from which the triangles are made -/

/-- The face begins and goes on in the list as it says. -/
def Face.IsIn (face : Face) (coordIndex rest : List ℤ) : Prop :=
  (∀ index ∈ face.indices, 0 ≤ index) ∧ coordIndex.drop face.top = face.indices ++ rest

theorem exists_isIn_of_mem_facesFrom {face : Face} {coordIndex l : List ℤ}
    (h : face.IsIn coordIndex l) : ∀ f ∈ facesFrom face l, ∃ rest, f.IsIn coordIndex rest := by
  induction l generalizing face with
  | nil => exact fun f hf ↦ absurd hf List.not_mem_nil
  | cons index l ih =>
    rw [facesFrom]
    split_ifs with hneg
    · have hnext : face.next.IsIn coordIndex l := by
        refine ⟨fun _ h ↦ absurd h List.not_mem_nil, ?_⟩
        rw [Face.next, Nat.add_assoc, ← List.drop_drop, h.2]
        simp
      exact List.forall_mem_cons.2 ⟨⟨_, h⟩, ih hnext⟩
    · refine ih ⟨fun i hi ↦ ?_, ?_⟩
      · rcases List.mem_append.1 hi with hi | hi
        · exact h.1 i hi
        · exact List.mem_singleton.1 hi ▸ Int.not_lt.1 hneg
      · rw [Face.push, h.2]
        simp

section Places

variable {K : Type*} [Field K] [LinearOrder K] [CMath K]

/-- The local indices of the triangles of a face are those of its polygon. -/
theorem Face.triangleCorner_lt {face : Face} {vertices : List (Vector3 K)} {ccw : Bool}
    {t : ℕ × ℕ × ℕ} (ht : t ∈ face.triangles vertices ccw) (k : ℕ) :
    triangleCorner t k < (face.polygon vertices.length).length := by
  obtain ⟨r, hr, hlen, hlt⟩ := Triangulator.exists_triangulate
    (Triangulator.earTests vertices (face.polygon vertices.length))
    (face.polygon vertices.length).length
  rw [Face.triangles, Triangulator.apply, hr] at ht
  obtain ⟨j, hj, rfl⟩ := List.mem_map.1 ht
  obtain ⟨h1, h2, h3⟩ := localIndices_lt hlen hlt ccw (List.mem_range.1 hj)
  rcases k with - | - | k
  · exact h1
  · exact h2
  · exact h3

/-- The face and the positions of the corners from which a triangle is made. -/
def trianglePlaces (numVertices : ℕ) (c : Face × (ℕ × ℕ × ℕ)) : ℕ × ℕ × ℕ × ℕ :=
  (c.1.number, mapTriangle (c.1.position numVertices) c.2)

/-- The faces and the positions of the corners from which the triangles of a face set are made. -/
def sourcePlaces (faceSet : VrmlIndexedFaceSet K) : List (ℕ × ℕ × ℕ × ℕ) :=
  (writtenTriangles faceSet).map (trianglePlaces faceSet.coord.length)

variable {faceSet : VrmlIndexedFaceSet K} {c : Face × (ℕ × ℕ × ℕ)}

/-- A triangle has the vertex that stands at the position of the corner. -/
theorem getElem?_position (hc : c ∈ writtenTriangles faceSet) (k : ℕ) :
    faceSet.coordIndex[triangleCorner (trianglePlaces faceSet.coord.length c).2 k]? =
      some (triangleCorner (writtenIndices faceSet.coord.length c) k : ℤ) := by
  obtain ⟨face, hface, hc⟩ := List.mem_flatMap.1 hc
  obtain ⟨t, ht, rfl⟩ := List.mem_map.1 hc
  obtain ⟨index, hindex, -, hvertex⟩ := Face.getElem?_offset (Face.triangleCorner_lt ht k)
  have hstart : Face.IsIn ⟨0, 0, []⟩ faceSet.coordIndex faceSet.coordIndex :=
    ⟨fun _ h ↦ absurd h List.not_mem_nil, rfl⟩
  obtain ⟨rest, hnonneg, hdrop⟩ := exists_isIn_of_mem_facesFrom hstart face hface
  rw [trianglePlaces, triangleCorner_mapTriangle, writtenIndices, triangleCorner_mapTriangle,
    Face.position, ← List.getElem?_drop, hdrop, hvertex,
    List.getElem?_append_left (List.getElem?_eq_some_iff.1 hindex).1, hindex,
    Int.toNat_of_nonneg (hnonneg index (List.mem_of_getElem? hindex))]

/-- No index beyond the coordinates stands in the face before a corner of the triangle. -/
def IsUnshifted (numVertices : ℕ) (c : Face × (ℕ × ℕ × ℕ)) : Prop :=
  ∀ k < 3, ∀ index ∈ c.1.indices.take (c.1.offset numVertices (triangleCorner c.2 k)),
    index < numVertices

instance (numVertices : ℕ) (c : Face × (ℕ × ℕ × ℕ)) : Decidable (IsUnshifted numVertices c) :=
  inferInstanceAs (Decidable (∀ k < 3, ∀ index ∈ c.1.indices.take
    (c.1.offset numVertices (triangleCorner c.2 k)), index < (numVertices : ℤ)))

/-- The position that is noted for a corner is its own if and only if the triangle's corners have
not been moved by an index beyond the coordinates. -/
theorem isUnshifted_iff (hc : c ∈ writtenTriangles faceSet) :
    IsUnshifted faceSet.coord.length c ↔ ∀ k < 3, triangleCorner (notedPositions c) k =
      triangleCorner (trianglePlaces faceSet.coord.length c).2 k := by
  obtain ⟨face, hface, hc⟩ := List.mem_flatMap.1 hc
  obtain ⟨t, ht, rfl⟩ := List.mem_map.1 hc
  refine forall₂_congr fun k _ ↦ ?_
  rw [trianglePlaces, notedPositions, triangleCorner_mapTriangle, triangleCorner_mapTriangle,
    Face.position, Nat.add_left_cancel_iff, eq_comm]
  exact (Face.offset_eq_iff (Face.triangleCorner_lt ht k)).symm

theorem notedPositions_eq {numVertices : ℕ} (h : ∀ k < 3,
    triangleCorner (notedPositions c) k = triangleCorner (trianglePlaces numVertices c).2 k) :
    notedPositions c = (trianglePlaces numVertices c).2 :=
  Prod.ext (h 0 (by decide)) (Prod.ext (h 1 (by decide)) (h 2 (by decide)))

/-- The reading notes the places of the corners if none has been moved. -/
theorem IsReading.notes {s : FaceReader} {face : Face}
    (h : IsReading faceSet.coord.length s (writtenTriangles faceSet) face)
    (hunshifted : ∀ c ∈ writtenTriangles faceSet, IsUnshifted faceSet.coord.length c) :
    Notes s faceSet.coordIndex (sourcePlaces faceSet) where
  indexPositionMap := by
    rw [h.indexPositionMap, sourcePlaces, List.map_map]
    exact congrArg indexList (List.map_congr_left fun c hc ↦
      notedPositions_eq ((isUnshifted_iff hc).1 (hunshifted c hc)))
  faceIndexMap := by
    rw [h.faceIndexMap, sourcePlaces, List.map_map]
    rfl
  indices j p hp k hk := by
    rw [sourcePlaces, List.getElem?_map] at hp
    obtain ⟨c, hc, rfl⟩ := Option.map_eq_some_iff.1 hp
    have hwritten : ((writtenTriangles faceSet).map
        (writtenIndices faceSet.coord.length))[j]? =
          some (writtenIndices faceSet.coord.length c) := by
      rw [List.getElem?_map, hc, Option.map_some]
    rw [h.indices, getElem?_indexList hwritten hk,
      getElem?_position (List.mem_of_getElem? hc) k]

end Places

/-! ### Attributes on their own corners -/

section Attributes

variable {K : Type*} [Field K] [LinearOrder K] [CMath K]

/-- The colour of a corner, by its position and its face. -/
def colorAt (faceSet : VrmlIndexedFaceSet K) : ℕ → ℕ → Option (Vector3 K) :=
  assigned (faceSet.color.getD []) faceSet.colorIndex faceSet.colorPerVertex faceSet.coordIndex

def normalAt (faceSet : VrmlIndexedFaceSet K) : ℕ → ℕ → Option (Vector3 K) :=
  assigned (faceSet.normal.getD []) faceSet.normalIndex faceSet.normalPerVertex
    faceSet.coordIndex

def texCoordAt (faceSet : VrmlIndexedFaceSet K) : ℕ → ℕ → Option (Fin 2 → K) :=
  assigned (faceSet.texCoord.getD []) faceSet.texCoordIndex true faceSet.coordIndex

/-- What a conversion keeps: each corner of a triangle has the position, the face and the
coordinate of the corner from which it is made, and the attributes that the input assigns to it,
within range. The normals may be turned on the way. -/
structure KeepsAttributes (turn : Vector3 K → Vector3 K) (faceSet : VrmlIndexedFaceSet K)
    (r : Conversion K) : Prop where
  length : r.faceSet.coordIndex.length = 4 * (sourcePlaces faceSet).length
  faceIndexMap : r.faceIndexMap = (sourcePlaces faceSet).map Prod.fst
  indexPositionMap : ∀ j p, (sourcePlaces faceSet)[j]? = some p → ∀ k < 3,
    r.indexPositionMap[4 * j + k]? = some (triangleCorner p.2 k : ℤ)
  coordIndex : ∀ j p, (sourcePlaces faceSet)[j]? = some p → ∀ k < 3,
    r.faceSet.coordIndex[4 * j + k]? = faceSet.coordIndex[triangleCorner p.2 k]?
  color : faceSet.color.getD [] ≠ [] → IsGiven (sourcePlaces faceSet) (colorAt faceSet) ∧
    IsCarried (sourcePlaces faceSet) (colorAt faceSet) (colorAt r.faceSet)
  normal : faceSet.normal.getD [] ≠ [] → IsGiven (sourcePlaces faceSet) (normalAt faceSet) ∧
    IsCarried (sourcePlaces faceSet) (fun position face ↦ (normalAt faceSet position face).map turn)
      (normalAt r.faceSet)
  texCoord : faceSet.texCoord.isSome → IsGiven (sourcePlaces faceSet) (texCoordAt faceSet) ∧
    IsCarried (sourcePlaces faceSet) (texCoordAt faceSet) (texCoordAt r.faceSet)

/-- What the corners of the triangles need: none is moved by an index beyond the coordinates, and
each has a value of every attribute that the face set has. -/
structure IsWellIndexed (faceSet : VrmlIndexedFaceSet K) : Prop where
  unshifted : ∀ c ∈ writtenTriangles faceSet, IsUnshifted faceSet.coord.length c
  color : faceSet.color.getD [] ≠ [] → IsGiven (sourcePlaces faceSet) (colorAt faceSet)
  normal : faceSet.normal.getD [] ≠ [] → IsGiven (sourcePlaces faceSet) (normalAt faceSet)
  texCoord : faceSet.texCoord.isSome → IsGiven (sourcePlaces faceSet) (texCoordAt faceSet)

/-- The normals of a face set that is not counterclockwise are turned round with its faces. -/
def turnNormal (ccw : Bool) (n : Vector3 K) : Vector3 K :=
  if ccw then n else -n

variable {faceSet : VrmlIndexedFaceSet K}

section

omit [LinearOrder K] [CMath K]

/-- The colours that are written, by corner. -/
theorem colorAt_write {s : FaceReader} {color normal : Remapped (Vector3 K)}
    {tex : Bool × List ℤ × List String} (hne : faceSet.color.getD [] ≠ []) :
    colorAt (Conversion.write faceSet s color normal tex).faceSet =
      assigned color.values color.indices faceSet.colorPerVertex s.indices := by
  rw [colorAt, Conversion.write]
  dsimp only
  rw [getD_map_const fun hnil ↦ absurd hnil hne]

/-- The normals that are written, by corner. -/
theorem normalAt_write {s : FaceReader} {color normal : Remapped (Vector3 K)}
    {tex : Bool × List ℤ × List String} (hne : faceSet.normal.getD [] ≠ []) (position face : ℕ) :
    normalAt (Conversion.write faceSet s color normal tex).faceSet position face =
      (assigned normal.values normal.indices faceSet.normalPerVertex s.indices position face).map
        (turnNormal faceSet.ccw) := by
  have hpos : 0 < (faceSet.normal.getD []).length := List.length_pos_iff.2 hne
  rw [← assigned_map, normalAt, Conversion.write]
  dsimp only
  rw [getD_map_const fun hnil ↦ absurd hnil hne]
  refine congrArg (assigned · _ _ _ _ _) ?_
  cases faceSet.ccw with
  | false => exact if_pos ⟨hpos, rfl⟩
  | true => exact (if_neg fun h ↦ Bool.false_ne_true h.2).trans (List.map_id _).symm

end

/-- A face set in which the corners are well indexed is converted with its attributes. -/
theorem IsWellIndexed.exists_keepsAttributes (h : IsWellIndexed faceSet) :
    ∃ r, convertIndexedFaceSet faceSet = some r ∧
      KeepsAttributes (turnNormal faceSet.ccw) faceSet r := by
  obtain ⟨s, face, hs, hreading⟩ :=
    exists_readFaces faceSet.coord faceSet.ccw faceSet.coordIndex
  have hnotes := hreading.notes h.unshifted
  obtain ⟨color, hcolor, hcolors⟩ :=
    hnotes.exists_checkAndRemapIndices "colors" faceSet.coord.length h.color
  obtain ⟨normal, hnormal, hnormals⟩ :=
    hnotes.exists_checkAndRemapIndices "normals" faceSet.coord.length h.normal
  obtain ⟨tex, htex, htexs⟩ := hnotes.exists_setTexCoordIndex h.texCoord
  refine ⟨_, convertIndexedFaceSet_eq_some.2 ⟨s, color, normal, tex, hs, hcolor, hnormal, htex,
    rfl⟩, ?_, hnotes.faceIndexMap, fun j p hp k hk ↦ ?_, hnotes.indices, fun hne ↦ ?_,
    fun hne ↦ ?_, fun hsome ↦ ?_⟩
  · refine (congrArg List.length hreading.indices).trans ?_
    rw [length_indexList, List.length_map, sourcePlaces, List.length_map]
    rfl
  · have hT : ((sourcePlaces faceSet).map Prod.snd)[j]? = some p.2 := by
      rw [List.getElem?_map, hp, Option.map_some]
    exact (congrArg (·[4 * j + k]?) hnotes.indexPositionMap).trans (getElem?_indexList hT hk)
  · refine ⟨h.color hne, ?_⟩
    rw [colorAt_write hne]
    exact hcolors hne
  · refine ⟨h.normal hne, fun j p hp k hk ↦ ?_⟩
    rw [normalAt_write hne, hnormals hne j p hp k hk]
    rfl
  · exact ⟨h.texCoord hsome, htexs hsome⟩

theorem KeepsAttributes.isWellIndexed {turn : Vector3 K → Vector3 K} {r : Conversion K}
    (hr : convertIndexedFaceSet faceSet = some r) (h : KeepsAttributes turn faceSet r) :
    IsWellIndexed faceSet where
  unshifted c hc := by
    obtain ⟨s, color, normal, tex, hs, -, -, -, rfl⟩ := convertIndexedFaceSet_eq_some.1 hr
    obtain ⟨s', face, hs', hreading⟩ :=
      exists_readFaces faceSet.coord faceSet.ccw faceSet.coordIndex
    obtain rfl := Option.some.inj (hs'.symm.trans hs)
    obtain ⟨j, hj, rfl⟩ := List.getElem_of_mem hc
    refine (isUnshifted_iff hc).2 fun k hk ↦ ?_
    have hplace : (sourcePlaces faceSet)[j]? =
        some (trianglePlaces faceSet.coord.length (writtenTriangles faceSet)[j]) := by
      rw [sourcePlaces, List.getElem?_map, List.getElem?_eq_getElem hj, Option.map_some]
    have hnoted : ((writtenTriangles faceSet).map notedPositions)[j]? =
        some (notedPositions (writtenTriangles faceSet)[j]) := by
      rw [List.getElem?_map, List.getElem?_eq_getElem hj, Option.map_some]
    have hposition := h.indexPositionMap j _ hplace k hk
    rw [Conversion.write] at hposition
    dsimp only at hposition
    rw [hreading.indexPositionMap] at hposition
    exact Int.ofNat_inj.1 (Option.some.inj ((getElem?_indexList hnoted hk).symm.trans hposition))
  color hne := (h.color hne).1
  normal hne := (h.normal hne).1
  texCoord hsome := (h.texCoord hsome).1

/-- The normals at the corners of the triangles are the same when they are turned. -/
def NormalsFixed (turn : Vector3 K → Vector3 K) (faceSet : VrmlIndexedFaceSet K) : Prop :=
  ∀ p ∈ sourcePlaces faceSet, ∀ k < 3, ∀ n, normalAt faceSet (triangleCorner p.2 k) p.1 = some n →
    turn n = n

/-- **The attributes stay on their own corners and faces** if and only if the corners are well
indexed. The normals are turned round with the faces, and are those of the input if that leaves
them as they are. -/
theorem keepsAttributes_iff (faceSet : VrmlIndexedFaceSet K) :
    ((∃ r, convertIndexedFaceSet faceSet = some r ∧
        KeepsAttributes (turnNormal faceSet.ccw) faceSet r) ↔ IsWellIndexed faceSet) ∧
      ((∃ r, convertIndexedFaceSet faceSet = some r ∧ KeepsAttributes id faceSet r) ↔
        IsWellIndexed faceSet ∧ NormalsFixed (turnNormal faceSet.ccw) faceSet) := by
  refine ⟨⟨fun ⟨r, hr, h⟩ ↦ h.isWellIndexed hr, IsWellIndexed.exists_keepsAttributes⟩, ?_, ?_⟩
  · rintro ⟨r, hr, h⟩
    have hindexed := h.isWellIndexed hr
    obtain ⟨r', hr', h'⟩ := hindexed.exists_keepsAttributes
    obtain rfl := Option.some.inj (hr.symm.trans hr')
    refine ⟨hindexed, fun p hp k hk n hn ↦ ?_⟩
    have hne : faceSet.normal.getD [] ≠ [] := fun hnil ↦ by
      rw [normalAt, hnil, assigned_nil] at hn
      exact absurd hn (Option.some_ne_none _).symm
    obtain ⟨j, hj⟩ := List.getElem?_of_mem hp
    have hid := (h.normal hne).2 j p hj k hk
    have hturn := (h'.normal hne).2 j p hj k hk
    rw [hid] at hturn
    dsimp only at hturn
    rw [hn] at hturn
    exact (Option.some.inj hturn).symm
  · rintro ⟨hindexed, hfixed⟩
    obtain ⟨r, hr, h⟩ := hindexed.exists_keepsAttributes
    refine ⟨r, hr, h.length, h.faceIndexMap, h.indexPositionMap, h.coordIndex, h.color,
      fun hne ↦ ⟨(h.normal hne).1, fun j p hj k hk ↦ ?_⟩, h.texCoord⟩
    have hp := List.mem_of_getElem? hj
    obtain ⟨n, hn⟩ := Option.isSome_iff_exists.1 ((h.normal hne).1 p hp k hk)
    have hturn := (h.normal hne).2 j p hj k hk
    rw [hturn]
    dsimp only
    rw [hn]
    exact congrArg some (hfixed p hp k hk n hn)

end Attributes

/-- A triangle after an index beyond the coordinates, with a colour for each corner. -/
def skippedCorner : VrmlIndexedFaceSet ℚ :=
  { VrmlIndexedFaceSet.new with
    coord := [![0, 0, 0], ![1, 0, 0], ![1, 1, 0]]
    coordIndex := [3, 0, 1, 2, -1]
    color := some [![1, 0, 0], ![0, 1, 0], ![0, 0, 1], ![1, 1, 1]]
    colorIndex := [3, 0, 1, 2, -1] }

/-- The position that is noted for the first corner is that of the index beyond the coordinates,
and the corner gets its colour. -/
theorem not_keepsAttributes_skippedCorner : ∃ r, convertIndexedFaceSet skippedCorner = some r ∧
    r.result = true ∧ r.faceSet.coordIndex[0]? = some 0 ∧ r.indexPositionMap[0]? = some 0 ∧
    skippedCorner.coordIndex[0]? = some 3 ∧ colorAt r.faceSet 0 0 = some ![1, 1, 1] ∧
    colorAt skippedCorner 1 0 = some ![1, 0, 0] ∧
    ∀ turn, ¬KeepsAttributes turn skippedCorner r := by
  have hplaces : sourcePlaces skippedCorner = [(0, 1, 2, 3)] := by decide +kernel
  have hval : (convertIndexedFaceSet skippedCorner).map (fun r ↦
      (r.result, r.faceSet.coordIndex[0]?, r.indexPositionMap[0]?, colorAt r.faceSet 0 0)) =
        some (true, some 0, some 0, some ![1, 1, 1]) := by decide +kernel
  obtain ⟨r, hr, h⟩ := Option.map_eq_some_iff.1 hval
  simp only [Prod.mk.injEq] at h
  obtain ⟨hresult, hindex, hposition, hcolor⟩ := h
  refine ⟨r, hr, hresult, hindex, hposition, rfl, hcolor, by decide +kernel, fun turn hkeeps ↦ ?_⟩
  have hown := hkeeps.indexPositionMap 0 (0, 1, 2, 3) (by rw [hplaces]; rfl) 0 (by decide)
  rw [hposition] at hown
  exact absurd (Option.some.inj hown) (by decide)

end OpenHRP.TriangleMeshShaper
