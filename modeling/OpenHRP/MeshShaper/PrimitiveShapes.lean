import OpenHRP.Foundations.ClosedSurface
import OpenHRP.Model.Link

/-!
# Meshes of primitive shapes

`TriangleMeshShaper` replaces spheres, cones and cylinders by triangle meshes. The vertices are
rings of as many points as the division number says, and two single points at the ends; the
triangles are written one after the other into the list of coordinate indices.

The index lists of all three shapes are permutations of a capped tube, so that they are closed
oriented surfaces (`primitives_closed`).
-/

namespace OpenHRP.TriangleMeshShaper

/-- A `VrmlIndexedFaceSet`. The nodes for the values of an attribute need not be there. -/
structure VrmlIndexedFaceSet (K : Type*) where
  coord : List (Vector3 K)
  coordIndex : List ℤ
  color : Option (List (Vector3 K))
  colorIndex : List ℤ
  colorPerVertex : Bool
  normal : Option (List (Vector3 K))
  normalIndex : List ℤ
  normalPerVertex : Bool
  texCoord : Option (List (Fin 2 → K))
  texCoordIndex : List ℤ
  ccw : Bool
  creaseAngle : K
  deriving DecidableEq

structure VrmlCone (K : Type*) where
  bottom : Bool
  bottomRadius : K
  height : K
  side : Bool

structure VrmlCylinder (K : Type*) where
  bottom : Bool
  height : K
  radius : K
  side : Bool
  top : Bool

structure VrmlSphere (K : Type*) where
  radius : K

/-- `setDivisionNumber`. -/
def setDivisionNumber (n : ℤ) : ℕ :=
  (max 4 n).toNat

section Convert

variable {K : Type*}

/-- `addVertex`: the vertices, and the index of the new one. -/
def addVertex (vertices : List (Vector3 K)) (x y z : K) : List (Vector3 K) × ℕ :=
  (vertices ++ [![x, y, z]], vertices.length)

/-- What `addTriangle` appends to the indices. -/
def addTriangle (x y z : ℕ) : List ℤ :=
  [x, y, z, -1]

variable [Field K]

/-- A new face set with the coordinate node that it is given. -/
def VrmlIndexedFaceSet.new : VrmlIndexedFaceSet K where
  coord := []
  coordIndex := []
  color := none
  colorIndex := []
  colorPerVertex := true
  normal := none
  normalIndex := []
  normalPerVertex := true
  texCoord := none
  texCoordIndex := []
  ccw := true
  creaseAngle := 0

/-- `PI`. -/
def PI : K :=
  ((314159265358979323846 : ℕ) : K) / 10 ^ 20

variable [LinearOrder K] [CMath K]

/-- `convertCone`. -/
def convertCone (divisionNumber : ℕ) (cone : VrmlCone K) : Option (VrmlIndexedFaceSet K) :=
  let radius := cone.bottomRadius
  if cone.height < 0 ∨ radius < 0 then none
  else
    let vertices := (List.range divisionNumber).map fun i : ℕ ↦
      let angle := (i : K) * 2 * PI / (divisionNumber : K)
      ![radius * CMath.cos angle, -cone.height / 2, radius * CMath.sin angle]
    let (vertices, topIndex) := addVertex vertices 0 (cone.height / 2) 0
    let (vertices, bottomCenterIndex) := addVertex vertices 0 (-cone.height / 2) 0
    let indices := (List.range divisionNumber).flatMap fun i ↦
      (if cone.side then addTriangle topIndex ((i + 1) % divisionNumber) i else []) ++
        if cone.bottom then addTriangle bottomCenterIndex i ((i + 1) % divisionNumber) else []
    some { VrmlIndexedFaceSet.new with
      coord := vertices
      coordIndex := indices
      creaseAngle := ((314 : ℕ) : K) / 10 ^ 2 / 2 }

/-- `convertCylinder`. -/
def convertCylinder (divisionNumber : ℕ) (cylinder : VrmlCylinder K) :
    Option (VrmlIndexedFaceSet K) :=
  if cylinder.height < 0 ∨ cylinder.radius < 0 then none
  else
    let y := cylinder.height / 2
    let ring (y : K) := (List.range divisionNumber).map fun i : ℕ ↦
      let angle := (i : K) * 2 * PI / (divisionNumber : K)
      ![cylinder.radius * CMath.cos angle, y, cylinder.radius * CMath.sin angle]
    let vertices := ring y ++ ring (-y)
    let (vertices, topCenterIndex) := addVertex vertices 0 y 0
    let (vertices, bottomCenterIndex) := addVertex vertices 0 (-y) 0
    let indices := (List.range divisionNumber).flatMap fun i ↦
      (if cylinder.top then addTriangle topCenterIndex ((i + 1) % divisionNumber) i else []) ++
      (if cylinder.side then
        addTriangle i ((i + 1) % divisionNumber + divisionNumber) (i + divisionNumber) ++
          addTriangle i ((i + 1) % divisionNumber) ((i + 1) % divisionNumber + divisionNumber)
        else []) ++
      if cylinder.bottom then
        addTriangle bottomCenterIndex (i + divisionNumber)
          ((i + 1) % divisionNumber + divisionNumber)
        else []
    some { VrmlIndexedFaceSet.new with
      coord := vertices
      coordIndex := indices
      creaseAngle := ((314 : ℕ) : K) / 10 ^ 2 / 2 }

/-- `convertSphere`. -/
def convertSphere (divisionNumber : ℕ) (sphere : VrmlSphere K) : Option (VrmlIndexedFaceSet K) :=
  let r := sphere.radius
  if r < 0 then none
  else
    let vdn := divisionNumber / 2
    let hdn := divisionNumber
    let vertices := (List.range (vdn - 1)).flatMap fun i ↦
      -- the loop starts from 1
      let tv := ((i + 1 : ℕ) : K) * PI / (vdn : K)
      (List.range hdn).map fun j : ℕ ↦
        let th := (j : K) * 2 * PI / (hdn : K)
        ![r * CMath.sin tv * CMath.cos th, r * CMath.cos tv, r * CMath.sin tv * CMath.sin th]
    let (vertices, topIndex) := addVertex vertices 0 r 0
    let (vertices, bottomIndex) := addVertex vertices 0 (-r) 0
    let topFaces := (List.range hdn).flatMap fun i ↦ addTriangle topIndex ((i + 1) % hdn) i
    let sideFaces := (List.range (vdn - 2)).flatMap fun i ↦
      let upper := i * hdn
      let lower := (i + 1) * hdn
      (List.range hdn).flatMap fun j ↦
        addTriangle (j + upper) ((j + 1) % hdn + lower) (j + lower) ++
          addTriangle (j + upper) ((j + 1) % hdn + upper) ((j + 1) % hdn + lower)
    let offset := (vdn - 2) * hdn
    let bottomFaces := (List.range hdn).flatMap fun i ↦
      addTriangle bottomIndex (i % hdn + offset) ((i + 1) % hdn + offset)
    some { VrmlIndexedFaceSet.new with
      coord := vertices
      coordIndex := topFaces ++ sideFaces ++ bottomFaces
      creaseAngle := PI }

end Convert

/-! ### Closed surfaces -/

/-- The index list of a list of triangles. -/
def indexList (T : List (ℕ × ℕ × ℕ)) : List ℤ :=
  T.flatMap fun t ↦ addTriangle t.1 t.2.1 t.2.2

/-- The indices are those of the triangles of a closed oriented surface, and refer to vertices. -/
def VrmlIndexedFaceSet.IsClosed {K : Type*} (mesh : VrmlIndexedFaceSet K) : Prop :=
  ∃ T, mesh.coordIndex = indexList T ∧ IsClosedSurface T ∧
    ∀ t ∈ T, t.1 < mesh.coord.length ∧ t.2.1 < mesh.coord.length ∧ t.2.2 < mesh.coord.length

variable {K : Type*}

theorem isClosed_of_perm {mesh : VrmlIndexedFaceSet K} {T : List (ℕ × ℕ × ℕ)} {n k : ℕ}
    (hn : 3 ≤ n) (hindex : mesh.coordIndex = indexList T)
    (hT : ((CappedTube.faces n k).map (mapTriangle (CappedTube.number n k))).Perm T)
    (hcoord : mesh.coord.length = (k + 1) * n + 2) : mesh.IsClosed := by
  refine ⟨T, hindex, .perm (.map (CappedTube.isClosedSurface hn k) (CappedTube.number_injOn n k)
    fun t ↦ CappedTube.mem_vertices) hT, fun t ht ↦ ?_⟩
  obtain ⟨t, hface, rfl⟩ := List.mem_map.1 (hT.mem_iff.2 ht)
  obtain ⟨hx, hy, hz⟩ := CappedTube.mem_vertices hface
  rw [hcoord]
  exact ⟨CappedTube.number_lt hx, CappedTube.number_lt hy, CappedTube.number_lt hz⟩

variable [Field K] [LinearOrder K] [CMath K] {n : ℕ} {mesh : VrmlIndexedFaceSet K}

/-- A cone is a tube of one ring, whose two fans are written in turn. -/
theorem isClosed_convertCone (hn : 3 ≤ n) {cone : VrmlCone K} (hside : cone.side = true)
    (hbottom : cone.bottom = true) (h : convertCone n cone = some mesh) : mesh.IsClosed := by
  rw [convertCone] at h
  dsimp only [addVertex] at h
  split_ifs at h
  obtain rfl := Option.some.inj h
  clear h
  refine isClosed_of_perm (k := 0) (T := (List.range n).flatMap fun i ↦
    [(n, (i + 1) % n, i), (n + 1, i, (i + 1) % n)]) hn ?_ ?_ ?_
  · simp [indexList, List.flatMap_assoc]
  · have hfaces : (CappedTube.faces n 0).map (mapTriangle (CappedTube.number n 0)) =
        ((List.range n).flatMap fun i ↦ [(n, (i + 1) % n, i)]) ++
          (List.range n).flatMap fun i ↦ [(n + 1, i, (i + 1) % n)] := by
      simp [CappedTube.faces, CappedTube.strips, mapTriangle, CappedTube.topFace, CappedTube.upFace,
        CappedTube.downFace, CappedTube.bottomFace, CappedTube.number, CappedTube.next,
        List.map_eq_flatMap, List.flatMap_assoc]
    rw [hfaces]
    exact List.flatMap_append_perm _ _ _
  · simp

/-- A cylinder is a tube of two rings. -/
theorem isClosed_convertCylinder (hn : 3 ≤ n) {cylinder : VrmlCylinder K}
    (htop : cylinder.top = true) (hside : cylinder.side = true) (hbottom : cylinder.bottom = true)
    (h : convertCylinder n cylinder = some mesh) : mesh.IsClosed := by
  rw [convertCylinder] at h
  dsimp only [addVertex] at h
  split_ifs at h
  obtain rfl := Option.some.inj h
  clear h
  refine isClosed_of_perm (k := 1) (T := (List.range n).flatMap fun i ↦
    [(n + n, (i + 1) % n, i), (i, (i + 1) % n + n, i + n), (i, (i + 1) % n, (i + 1) % n + n),
      (n + (n + 1), i + n, (i + 1) % n + n)]) hn ?_ ?_ ?_
  · simp [indexList, List.flatMap_assoc]
  · have hfaces : (CappedTube.faces n 1).map (mapTriangle (CappedTube.number n 1)) =
        ((List.range n).flatMap fun i ↦ [(n + n, (i + 1) % n, i)]) ++
          ((List.range n).flatMap fun i ↦ [(i, (i + 1) % n + n, i + n),
            (i, (i + 1) % n, (i + 1) % n + n)]) ++
          (List.range n).flatMap fun i ↦ [(n + (n + 1), i + n, (i + 1) % n + n)] := by
      simp [CappedTube.faces, CappedTube.strips, mapTriangle, CappedTube.topFace, CappedTube.upFace,
        CappedTube.downFace, CappedTube.bottomFace, CappedTube.number, CappedTube.next,
        List.map_eq_flatMap, List.flatMap_assoc, two_mul, Nat.add_assoc, Nat.add_comm]
    rw [hfaces]
    exact ((List.flatMap_append_perm _ _ _).append_right _).trans (List.flatMap_append_perm _ _ _)
  · simp [two_mul, Nat.add_assoc]

/-- A sphere is a tube, written from the top to the bottom. -/
theorem isClosed_convertSphere (hn : 4 ≤ n) {sphere : VrmlSphere K}
    (h : convertSphere n sphere = some mesh) : mesh.IsClosed := by
  obtain ⟨k, hk⟩ : ∃ k, n / 2 = k + 2 := ⟨n / 2 - 2, by omega⟩
  rw [convertSphere] at h
  dsimp only [addVertex] at h
  split_ifs at h
  obtain rfl := Option.some.inj h
  clear h
  refine isClosed_of_perm (n := n) (k := k) (by omega) ?_ (.refl _) ?_
  · simp [hk, indexList, CappedTube.faces, CappedTube.strips, List.flatMap_assoc, List.flatMap_map,
      mapTriangle, CappedTube.topFace, CappedTube.number, CappedTube.bottomFace, CappedTube.upFace,
      CappedTube.downFace, CappedTube.next]
    refine List.flatMap_congr fun i hi ↦ ?_
    rw [Nat.mod_eq_of_lt (List.mem_range.1 hi)]
  · simp [hk]

/-- **Primitive shapes become closed oriented surfaces**: spheres, and cones and cylinders with all
their faces, for every division number from 4 on. -/
theorem primitives_closed (hn : 4 ≤ n) :
    (∀ (sphere : VrmlSphere K) (mesh : VrmlIndexedFaceSet K),
      convertSphere n sphere = some mesh → mesh.IsClosed) ∧
    (∀ (cone : VrmlCone K) (mesh : VrmlIndexedFaceSet K), cone.side = true → cone.bottom = true →
      convertCone n cone = some mesh → mesh.IsClosed) ∧
    ∀ (cylinder : VrmlCylinder K) (mesh : VrmlIndexedFaceSet K), cylinder.top = true →
      cylinder.side = true → cylinder.bottom = true → convertCylinder n cylinder = some mesh →
      mesh.IsClosed :=
  ⟨fun _ _ h ↦ isClosed_convertSphere hn h,
    fun _ _ hside hbottom h ↦ isClosed_convertCone (by omega) hside hbottom h,
    fun _ _ htop hside hbottom h ↦ isClosed_convertCylinder (by omega) htop hside hbottom h⟩

/-- The smallest division number leaves a sphere with one ring. -/
theorem primitives_closed_four :
    ∃ sphere cone cylinder : VrmlIndexedFaceSet ℚ,
      convertSphere 4 ⟨1⟩ = some sphere ∧ convertCone 4 ⟨true, 1, 1, true⟩ = some cone ∧
        convertCylinder 4 ⟨true, 1, 1, true, true⟩ = some cylinder ∧
        sphere.IsClosed ∧ cone.IsClosed ∧ cylinder.IsClosed := by
  have h := primitives_closed (K := ℚ) (le_refl 4)
  obtain ⟨sphere, hsphere⟩ := Option.isSome_iff_exists.1
    (show (convertSphere 4 (⟨1⟩ : VrmlSphere ℚ)).isSome by decide +kernel)
  obtain ⟨cone, hcone⟩ := Option.isSome_iff_exists.1
    (show (convertCone 4 (⟨true, 1, 1, true⟩ : VrmlCone ℚ)).isSome by decide +kernel)
  obtain ⟨cylinder, hcylinder⟩ := Option.isSome_iff_exists.1
    (show (convertCylinder 4 (⟨true, 1, 1, true, true⟩ : VrmlCylinder ℚ)).isSome by decide +kernel)
  exact ⟨sphere, cone, cylinder, hsphere, hcone, hcylinder, h.1 _ _ hsphere,
    h.2.1 _ _ rfl rfl hcone, h.2.2 _ _ rfl rfl rfl hcylinder⟩

end OpenHRP.TriangleMeshShaper
