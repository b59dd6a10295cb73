import OpenHRP.Foundations.MassProperties
import OpenHRP.ModelLoader.CreateBody
import OpenHRP.ModelLoader.ShapeSetInfo

/-!
# The segments of a link

`setSegmentParameters` makes the mass, the centre of mass and the inertia of a link from its Segment
nodes. The centre is a running mean, which is divided by the mass so far in every turn of a first
loop; the inertias are turned into the frame of the link and moved to the centre in a second loop.

When the masses are not negative and not all zero, the link has the mass properties of the union of
the segments (`setSegmentParameters_isUnion`).
-/

namespace OpenHRP.ModelLoader

open Matrix

/-- The fields of a Segment node. -/
structure SegmentNode (K : Type*) where
  defName : String
  centerOfMass : Vector3 K
  mass : K
  momentsOfInertia : List K

/-- What a `SegmentInfo` has from the fields of its node. -/
structure SegmentInfo (K : Type*) where
  name : String
  mass : K
  centerOfMass : Vector3 K
  inertia : Fin 9 → K

/-- The part of a `LinkInfo` that the function writes. -/
structure SegmentParameters (K : Type*) where
  mass : K
  centerOfMass : Vector3 K
  /-- A matrix, row by row. -/
  inertia : Fin 9 → K
  segments : List (SegmentInfo K)

/-- The variables of the first loop. -/
structure SegmentLoop (K : Type*) extends SegmentParameters K where
  centerOfMassArray : List (Vector3 K)
  massArray : List K

variable {K : Type*}

/-- Copying a field with a matrix, which must have nine numbers. -/
def copyVrmlField (value : List K) : Option (Fin 9 → K) :=
  if h : value.length = 9 then some fun i ↦ value.get (i.cast h.symm) else none

/-- The matrix `R` of a transform. -/
def rotationPart (T : Matrix44 K) : Matrix33 K :=
  !![T 0 0, T 0 1, T 0 2; T 1 0, T 1 1, T 1 2; T 2 0, T 2 1, T 2 2]

/-- The entries of a matrix, row by row. -/
def rowMajorArray (M : Matrix33 K) : Fin 9 → K :=
  ![M 0 0, M 0 1, M 0 2, M 1 0, M 1 1, M 1 2, M 2 0, M 2 1, M 2 2]

variable [Field K] [LinearOrder K]

/-- `T * c`, without the last entry. -/
def transformPoint (T : Matrix44 K) (c : Vector3 K) : Vector3 K :=
  let c1 := T *ᵥ ![c 0, c 1, c 2, 1]
  ![c1 0, c1 1, c1 2]

/-- A turn of the first loop. -/
def addSegment (s : SegmentLoop K) (segment : SegmentNode K × Matrix44 K) :
    Option (SegmentLoop K) :=
  (copyVrmlField segment.1.momentsOfInertia).map fun inertia ↦
    let mass := segment.1.mass
    let c1 := transformPoint segment.2 segment.1.centerOfMass
    let linkMass := s.mass + mass
    let centerOfMass : Vector3 K := fun j ↦ c1 j * mass + s.centerOfMass j * s.mass
    let R := rotationPart segment.2
    let I1 := R * matrix33FromRowMajorArray inertia * Rᵀ
    { mass := linkMass
      centerOfMass := if 0 < linkMass then fun j ↦ centerOfMass j / linkMass else centerOfMass
      inertia := fun i ↦ s.inertia i + rowMajorArray I1 i
      segments := s.segments ++
        [⟨segment.1.defName, mass, segment.1.centerOfMass, inertia⟩]
      centerOfMassArray := s.centerOfMassArray ++ [c1]
      massArray := s.massArray ++ [mass] }

omit [LinearOrder K] in
/-- A turn of the second loop. -/
def addDistance (centerOfMass : Vector3 K) (inertia : Fin 9 → K) (part : Vector3 K × K) :
    Fin 9 → K :=
  let x := part.1 0 - centerOfMass 0
  let y := part.1 1 - centerOfMass 1
  let z := part.1 2 - centerOfMass 2
  let m := part.2
  fun i ↦ inertia i +
    (![m * (y * y + z * z), -m * x * y, -m * x * z, -m * y * x, m * (z * z + x * x), -m * y * z,
      -m * z * x, -m * z * y, m * (x * x + y * y)] : Fin 9 → K) i

/-- The parameters of a link from its segments and their transforms. A segment with an illegal
matrix has no result. -/
def setSegmentParameters (segments : List (SegmentNode K × Matrix44 K)) :
    Option (SegmentParameters K) :=
  (segments.foldlM addSegment ⟨⟨0, 0, 0, []⟩, [], []⟩).map fun s ↦
    { s.toSegmentParameters with
      inertia :=
        (s.centerOfMassArray.zip s.massArray).foldl (addDistance s.centerOfMass) s.inertia }

/-! ### The segments as bodies -/

omit [Field K] [LinearOrder K] in
/-- The vector of a transform. -/
def translationPart (T : Matrix44 K) : Vector3 K :=
  ![T 0 3, T 1 3, T 2 3]

omit [LinearOrder K] in
/-- A segment in its own frame. -/
def SegmentNode.body (segment : SegmentNode K) : MassProperties K :=
  ⟨segment.mass, segment.centerOfMass,
    matrix33FromRowMajorArray ((copyVrmlField segment.momentsOfInertia).getD 0)⟩

omit [LinearOrder K] in
/-- A segment in the frame of the link. -/
def placedBody (segment : SegmentNode K × Matrix44 K) : MassProperties K :=
  segment.1.body.place (rotationPart segment.2) (translationPart segment.2)

omit [Field K] [LinearOrder K] in
/-- The mass properties of a link. -/
def SegmentParameters.massProperties (s : SegmentParameters K) : MassProperties K :=
  ⟨s.mass, s.centerOfMass, matrix33FromRowMajorArray s.inertia⟩

omit [LinearOrder K] in
theorem transformPoint_eq (T : Matrix44 K) (c : Vector3 K) :
    transformPoint T c = rotationPart T *ᵥ c + translationPart T := by
  ext i
  fin_cases i <;>
    simp [transformPoint, rotationPart, translationPart, mulVec, dotProduct, Fin.sum_univ_four,
      Fin.sum_univ_three, add_assoc]

omit [Field K] [LinearOrder K] in
theorem matrix33_rowMajorArray (M : Matrix33 K) :
    matrix33FromRowMajorArray (rowMajorArray M) = M := by
  ext i j
  fin_cases i <;> fin_cases j <;> rfl

omit [LinearOrder K] in
theorem matrix33_add (a b : Fin 9 → K) : matrix33FromRowMajorArray (fun i ↦ a i + b i) =
    matrix33FromRowMajorArray a + matrix33FromRowMajorArray b := by
  ext i j
  fin_cases i <;> fin_cases j <;> rfl

omit [Field K] [LinearOrder K] in
theorem matrix33_injective : Function.Injective (matrix33FromRowMajorArray (K := K)) := by
  intro a b h
  ext i
  fin_cases i
  · exact congrFun (congrFun h 0) 0
  · exact congrFun (congrFun h 0) 1
  · exact congrFun (congrFun h 0) 2
  · exact congrFun (congrFun h 1) 0
  · exact congrFun (congrFun h 1) 1
  · exact congrFun (congrFun h 1) 2
  · exact congrFun (congrFun h 2) 0
  · exact congrFun (congrFun h 2) 1
  · exact congrFun (congrFun h 2) 2

/-! ### The first loop -/

/-- The variables of the first loop after the bodies `l`. -/
structure IsPartial (l : List (MassProperties K)) (s : SegmentLoop K) : Prop where
  mass : s.mass = (l.map MassProperties.mass).sum
  nonneg : 0 ≤ s.mass
  moment : s.mass • s.centerOfMass = (l.map MassProperties.moment).sum
  inertia : matrix33FromRowMajorArray s.inertia = (l.map MassProperties.inertia).sum
  centers : s.centerOfMassArray = l.map MassProperties.center
  masses : s.massArray = l.map MassProperties.mass

variable [IsStrictOrderedRing K] {l : List (MassProperties K)} {s : SegmentLoop K}
  {segment : SegmentNode K × Matrix44 K}

/-- The running mean keeps the moment. While the mass is zero, so is what would be divided by it. -/
theorem smul_runningMean {M m : K} (hM : 0 ≤ M) (hm : 0 ≤ m) (C c : Vector3 K) :
    (M + m) • (if 0 < M + m then fun j ↦ (c j * m + C j * M) / (M + m)
      else fun j ↦ c j * m + C j * M) = M • C + m • c := by
  ext j
  split_ifs with hpos
  · simp only [Pi.smul_apply, Pi.add_apply, smul_eq_mul]
    rw [mul_div_cancel₀ _ hpos.ne']
    ring
  · obtain rfl : M = 0 := by linarith
    obtain rfl : m = 0 := by linarith
    simp

theorem IsPartial.addSegment (h : IsPartial l s) (hlen : segment.1.momentsOfInertia.length = 9)
    (hmass : 0 ≤ segment.1.mass) :
    ∃ s', addSegment s segment = some s' ∧ IsPartial (l ++ [placedBody segment]) s' := by
  have hcopy : copyVrmlField segment.1.momentsOfInertia =
      some ((copyVrmlField segment.1.momentsOfInertia).getD 0) := by
    rw [copyVrmlField, dif_pos hlen]
    rfl
  refine ⟨_, by rw [ModelLoader.addSegment, hcopy]; rfl, ?_⟩
  have hcenter : transformPoint segment.2 segment.1.centerOfMass = (placedBody segment).center :=
    transformPoint_eq _ _
  refine ⟨?_, ?_, ?_, ?_, ?_, ?_⟩
  · rw [List.map_append, List.sum_append, ← h.mass, List.map_singleton, List.sum_singleton]
    rfl
  · exact add_nonneg h.nonneg hmass
  · rw [List.map_append, List.sum_append, ← h.moment, List.map_singleton, List.sum_singleton]
    dsimp only
    rw [smul_runningMean h.nonneg hmass, hcenter]
    rfl
  · rw [List.map_append, List.sum_append, ← h.inertia, List.map_singleton, List.sum_singleton,
      matrix33_add, matrix33_rowMajorArray]
    rfl
  · rw [List.map_append, ← h.centers, List.map_singleton, ← hcenter]
  · rw [List.map_append, ← h.masses, List.map_singleton]
    rfl

variable {segments : List (SegmentNode K × Matrix44 K)}

theorem exists_foldlM_addSegment
    (h : IsPartial l s) (hlen : ∀ segment ∈ segments, segment.1.momentsOfInertia.length = 9)
    (hmass : ∀ segment ∈ segments, 0 ≤ segment.1.mass) :
    ∃ s', segments.foldlM addSegment s = some s' ∧ IsPartial (l ++ segments.map placedBody) s' := by
  induction segments generalizing l s with
  | nil => exact ⟨s, rfl, by rwa [List.map_nil, List.append_nil]⟩
  | cons segment segments ih =>
    rw [List.forall_mem_cons] at hlen hmass
    obtain ⟨s', hs', h'⟩ := h.addSegment hlen.1 hmass.1
    obtain ⟨t, ht, h⟩ := ih h' hlen.2 hmass.2
    refine ⟨t, ?_, ?_⟩
    · rw [List.foldlM_cons, hs']
      exact ht
    · rwa [List.append_assoc] at h

/-! ### The second loop -/

section

omit [LinearOrder K] [IsStrictOrderedRing K]

theorem matrix33_addDistance (C : Vector3 K) (inertia : Fin 9 → K) (part : Vector3 K × K) :
    matrix33FromRowMajorArray (addDistance C inertia part) =
      matrix33FromRowMajorArray inertia + inertiaOfPoint part.2 (part.1 - C) := by
  ext i j
  fin_cases i <;> fin_cases j <;>
    simp [addDistance, matrix33FromRowMajorArray, inertiaOfPoint, dotProduct, vecMulVec,
      Fin.sum_univ_three] <;> ring

theorem matrix33_foldl_addDistance (C : Vector3 K) (inertia : Fin 9 → K)
    (l : List (MassProperties K)) :
    matrix33FromRowMajorArray
        (((l.map MassProperties.center).zip (l.map MassProperties.mass)).foldl (addDistance C)
          inertia) =
      matrix33FromRowMajorArray inertia +
        (l.map fun B ↦ inertiaOfPoint B.mass (B.center - C)).sum := by
  induction l generalizing inertia with
  | nil => exact (add_zero _).symm
  | cons B l ih =>
    rw [List.map_cons, List.map_cons, List.zip_cons_cons, List.foldl_cons, ih, List.map_cons,
      List.sum_cons, matrix33_addDistance, add_assoc]

end

/-- The function makes the union of the segments. -/
theorem exists_setSegmentParameters_eq
    (hlen : ∀ segment ∈ segments, segment.1.momentsOfInertia.length = 9)
    (hmass : ∀ segment ∈ segments, 0 ≤ segment.1.mass) :
    ∃ link, setSegmentParameters segments = some link ∧
      MassProperties.IsUnion (segments.map placedBody) link.massProperties := by
  have hstart : IsPartial [] (⟨⟨0, 0, 0, []⟩, [], []⟩ : SegmentLoop K) := by
    refine ⟨rfl, le_rfl, smul_zero _, ?_, rfl, rfl⟩
    ext i j
    fin_cases i <;> fin_cases j <;> rfl
  obtain ⟨s, hs, h⟩ := exists_foldlM_addSegment hstart hlen hmass
  rw [List.nil_append] at h
  refine ⟨_, by rw [setSegmentParameters, hs]; rfl, ?_⟩
  refine MassProperties.isUnion_of_center h.mass h.moment ?_
  show matrix33FromRowMajorArray ((s.centerOfMassArray.zip s.massArray).foldl
    (addDistance s.centerOfMass) s.inertia) = _
  rw [h.centers, h.masses, matrix33_foldl_addDistance, h.inertia, ← List.sum_map_add]
  rfl

omit [LinearOrder K] [IsStrictOrderedRing K] in
/-- Systems of point masses for the segments give systems for the placed bodies. -/
theorem forall₂_realizes_placedBody {systems : List (List (K × Vector3 K))}
    (hrot : ∀ segment ∈ segments, IsRotation (rotationPart segment.2))
    (h : List.Forall₂ (fun segment points ↦
      MassProperties.Realizes points (SegmentNode.body segment.1)) segments systems) :
    List.Forall₂ MassProperties.Realizes (List.zipWith (fun segment points ↦
      placePoints (rotationPart segment.2) (translationPart segment.2) points) segments systems)
        (segments.map placedBody) := by
  induction h with
  | nil => exact .nil
  | cons hpoints _ ih =>
    rw [List.forall_mem_cons] at hrot
    exact .cons (hpoints.place hrot.1 _) (ih hrot.2)

/-- The mass, the centre of mass and the inertia of the link are those of the union of the segments
placed by their transforms; a system of point masses for each segment gives one for the link. The
order of the segments does not matter. -/
theorem setSegmentParameters_isUnion {segments : List (SegmentNode K × Matrix44 K)}
    (hlen : ∀ segment ∈ segments, segment.1.momentsOfInertia.length = 9)
    (hmass : ∀ segment ∈ segments, 0 ≤ segment.1.mass)
    (hpos : 0 < (segments.map fun segment ↦ segment.1.mass).sum)
    (hrot : ∀ segment ∈ segments, IsRotation (rotationPart segment.2)) :
    ∃ link, setSegmentParameters segments = some link ∧
      MassProperties.IsUnion (segments.map placedBody) link.massProperties ∧
      (∀ systems, List.Forall₂ (fun segment points ↦
          MassProperties.Realizes points (SegmentNode.body segment.1)) segments systems →
        MassProperties.Realizes (List.zipWith (fun segment points ↦
          placePoints (rotationPart segment.2) (translationPart segment.2) points)
            segments systems).flatten link.massProperties) ∧
      ∀ segments', segments.Perm segments' → ∃ link', setSegmentParameters segments' = some link' ∧
        link'.mass = link.mass ∧ link'.centerOfMass = link.centerOfMass ∧
          link'.inertia = link.inertia := by
  obtain ⟨link, hlink, hunion⟩ := exists_setSegmentParameters_eq hlen hmass
  refine ⟨link, hlink, hunion, fun systems h ↦ ?_, fun segments' hperm ↦ ?_⟩
  · exact MassProperties.Realizes.union (forall₂_realizes_placedBody hrot h) hunion
  · have hne : link.massProperties.mass ≠ 0 := by
      rw [hunion.mass, List.map_map]
      exact hpos.ne'
    obtain ⟨link', hlink', hunion'⟩ := exists_setSegmentParameters_eq
      (fun segment h ↦ hlen segment (hperm.mem_iff.2 h))
      (fun segment h ↦ hmass segment (hperm.mem_iff.2 h))
    have heq := (hunion.perm (hperm.map _)).unique hunion' hne
    exact ⟨link', hlink', (congrArg MassProperties.mass heq).symm,
      (congrArg MassProperties.center heq).symm,
      matrix33_injective (congrArg MassProperties.inertia heq).symm⟩

/-- Two segments, the first without mass and the second turned by a quarter about the third axis. -/
theorem setSegmentParameters_isUnion_witness :
    let segments : List (SegmentNode ℚ × Matrix44 ℚ) :=
      [(⟨"a", ![1, 0, 0], 0, [0, 0, 0, 0, 0, 0, 0, 0, 0]⟩, 1),
        (⟨"b", ![1, 2, 3], 4, [1, 0, 0, 0, 2, 0, 0, 0, 3]⟩,
          !![0, -1, 0, 5; 1, 0, 0, 6; 0, 0, 1, 7; 0, 0, 0, 1])]
    ∃ link, setSegmentParameters segments = some link ∧
      MassProperties.IsUnion (segments.map placedBody) link.massProperties := by
  intro segments
  have hlen : ∀ segment ∈ segments, segment.1.momentsOfInertia.length = 9 := by decide +kernel
  have hrot : ∀ segment ∈ segments, IsRotation (rotationPart segment.2) := by
    refine List.forall_mem_cons.2 ⟨⟨?_, ?_⟩, List.forall_mem_singleton.2 ⟨?_, ?_⟩⟩
    · decide +kernel
    · rw [det_fin_three]
      decide +kernel
    · decide +kernel
    · rw [det_fin_three]
      decide +kernel
  obtain ⟨link, hlink, hunion, -⟩ := setSegmentParameters_isUnion hlen (by decide +kernel)
    (by decide +kernel) hrot
  exact ⟨link, hlink, hunion⟩

end OpenHRP.ModelLoader
