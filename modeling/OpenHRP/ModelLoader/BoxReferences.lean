import OpenHRP.ModelLoader.BoxPlacing

/-!
# The cross-references of a body with bounding boxes

After `changetoBoundingBox` the links with boxes refer to the new shapes. Everything else that has
indices of shapes keeps them: the hardware components, the links without boxes with their sensors,
and the segments. So the references are valid exactly when these happen to fit the new sequences
(`crossReferencesValid_iff`).
-/

open Matrix

namespace OpenHRP.ModelLoader

open SSVTreeCollider (AABBCollisionNode)

variable {K : Type*} [Field K] [LinearOrder K]

/-! ### Valid references -/

/-- An entry of a link that is a box with the center `p` and the extents `e`. -/
def ShowsBox (shapes : List (ShapeInfo K)) (tsi : TransformedShapeIndex K) (p e : Vector3 K) :
    Prop :=
  tsi.transformMatrix = ![1, 0, 0, p 0, 0, 1, 0, p 1, 0, 0, 1, p 2] ∧
    ∃ (k : ℕ) (shapeInfo : ShapeInfo K), tsi.shapeIndex = k ∧ shapes[k]? = some shapeInfo ∧
      IsBox shapeInfo e

/-- The entries of a link are the boxes, up to merging within `EPS`. -/
structure ShowsBoxes (shapes : List (ShapeInfo K)) (shapeIndices : List (TransformedShapeIndex K))
    (boxes : List (AABB K)) : Prop where
  of_entry : ∀ tsi ∈ shapeIndices, ∃ box ∈ boxes, ∃ e, Near e box.mExtents ∧
    ShowsBox shapes tsi box.mCenter e
  of_box : ∀ box ∈ boxes, ∃ tsi ∈ shapeIndices, ∃ p e, Near p box.mCenter ∧
    Near e box.mExtents ∧ ShowsBox shapes tsi p e

/-- The references of a body that was changed to bounding boxes are valid, and the links with trees
show the boxes at the depth that was asked for, or at the deepest level. -/
structure CrossReferencesValid (body : BodyInfo K) (inputData : ℕ → BitVec 32) : Prop where
  shapeIndices : ∀ link ∈ body.links, Refer link.shapeIndices body.shapeSet.shapes.length
  sensors : ∀ link ∈ body.links, ∀ sensor ∈ link.sensors,
    Refer sensor.shapeIndices body.shapeSet.shapes.length
  hwcs : ∀ link ∈ body.links, ∀ hwc ∈ link.hwcs,
    Refer hwc.shapeIndices body.shapeSet.shapes.length
  linkShapeIndices : ∀ l ∈ body.linkShapeIndices, Refer l body.shapeSet.shapes.length
  segments : ∀ link ∈ body.links, ∀ segment ∈ link.segments, ∀ index ∈ segment.shapeIndices,
    InRange index link.shapeIndices.length
  appearanceIndex : ∀ shapeInfo ∈ body.shapeSet.shapes,
    InRange shapeInfo.appearanceIndex body.shapeSet.appearances.length
  materialIndex : ∀ appInfo ∈ body.shapeSet.appearances,
    InRange appInfo.materialIndex body.shapeSet.materials.length
  boxes : ∀ (i : ℕ) link model root, body.links[i]? = some link →
    body.linkColdetModels[i]? = some model → model.tree = some root →
    0 ≤ requestedDepth body.AABBdataType model (inputData i) →
      chosenDepth body.AABBdataType model link.AABBmaxDepth (inputData i) =
          min (requestedDepth body.AABBdataType model (inputData i)) (model.AABBTreeMaxDepth - 1) ∧
        ShowsBoxes body.shapeSet.shapes link.shapeIndices (model.getBoundingBoxData
          (chosenDepth body.AABBdataType model link.AABBmaxDepth (inputData i)).toNat)

omit [Field K] [LinearOrder K] in
/-- The boxes of the links of a body. -/
def linkBoxes (body : BodyInfo K) (inputData : ℕ → BitVec 32) : List (Option (List (AABB K))) :=
  boxesOf body.AABBdataType body.linkColdetModels inputData body.links 0

/-- The indices that stay fit the boxes of the body. The new shapes are the boxes of different
sizes. -/
structure BoxesFit (body : BodyInfo K) (inputData : ℕ → BitVec 32) : Prop where
  /-- A link knows how deep its tree is, as far as it matters. -/
  depths : ∀ (i : ℕ) model root, body.linkColdetModels[i]? = some model →
    model.tree = some root → 0 ≤ requestedDepth body.AABBdataType model (inputData i) →
      requestedDepth body.AABBdataType model (inputData i) < short model.AABBTreeMaxDepth ∨
        short model.AABBTreeMaxDepth = model.AABBTreeMaxDepth
  /-- The places of the new shapes fit into 16 bits. -/
  sizes : (distinct Near (sizesOf (linkBoxes body inputData))).length ≤ 2 ^ 15
  /-- Shapes that stay for want of boxes share the one appearance that is left. -/
  shapes : sizesOf (linkBoxes body inputData) = [] → body.shapeSet.shapes.length ≤ 1
  hwcs : sizesOf (linkBoxes body inputData) ≠ [] → ∀ link ∈ body.links, ∀ hwc ∈ link.hwcs,
    Refer hwc.shapeIndices (distinct Near (sizesOf (linkBoxes body inputData))).length
  /-- A link without boxes, and its sensors. -/
  kept : sizesOf (linkBoxes body inputData) ≠ [] → ∀ (i : ℕ) link, body.links[i]? = some link →
    (linkBoxes body inputData)[i]? = some none →
      Refer link.shapeIndices (distinct Near (sizesOf (linkBoxes body inputData))).length ∧
      ∀ sensor ∈ link.sensors,
        Refer sensor.shapeIndices (distinct Near (sizesOf (linkBoxes body inputData))).length
  /-- The places of the shapes of a link, which its segments keep, fit into 16 bits. -/
  segments : ∀ link ∈ body.links, link.shapeIndices.length ≤ 2 ^ 15
  /-- A link with boxes has as many different ones as it had shapes. -/
  segments_boxes : ∀ (i : ℕ) link boxes, body.links[i]? = some link →
    (linkBoxes body inputData)[i]? = some (some boxes) →
      link.shapeIndices.length ≤
        (distinct (Merges (sizesOf (linkBoxes body inputData))) boxes).length

/-! ### What the body is changed to -/

omit [Field K] [LinearOrder K] in
theorem getElem?_boxesOf (type : AABBdataType) (models : List (ColdetModel K))
    (inputData : ℕ → BitVec 32) (l : List (LinkShapes K)) (i j : ℕ) :
    (boxesOf type models inputData l i)[j]? = l[j]?.map fun link ↦
      boxesAt type (models.getD (i + j) (.build none)) link.AABBmaxDepth (inputData (i + j)) := by
  induction l generalizing i j with
  | nil => rfl
  | cons link l ih =>
    cases j with
    | zero => rfl
    | succ j =>
      rw [boxesOf, List.getElem?_cons_succ, List.getElem?_cons_succ, ih, Nat.add_right_comm,
        Nat.add_assoc]

/-- What `changetoBoundingBox` does to a body, when the places of the new shapes fit into 16 bits.
-/
structure Changed (body : BodyInfo K) (inputData : ℕ → BitVec 32) (body' : BodyInfo K) : Prop where
  shapes : body'.shapeSet.shapes =
    boxShapes body.shapeSet.shapes (distinct Near (sizesOf (linkBoxes body inputData)))
  links : ∀ (i : ℕ) link', body'.links[i]? = some link' ↔
    ∃ link boxes, body.links[i]? = some link ∧ (linkBoxes body inputData)[i]? = some boxes ∧
      link' = changedLink (sizesOf (linkBoxes body inputData)) boxes link
  linkShapeIndices : body'.linkShapeIndices = body'.links.map LinkShapes.shapeIndices
  appearances : body'.shapeSet.appearances = [(body.shapeSet.appearances.headD .blank).reset]
  materials : body'.shapeSet.materials = [.default]
  linkColdetModels : body'.linkColdetModels = body.linkColdetModels
  AABBdataType : body'.AABBdataType = body.AABBdataType

section

omit [LinearOrder K]

theorem appearances_createAppearanceInfo (s : ShapeSet K) :
    (createAppearanceInfo s).appearances = [(s.appearances.headD .blank).reset] := by
  rw [createAppearanceInfo, setLength_one]
  rfl

theorem materials_createAppearanceInfo (s : ShapeSet K) :
    (createAppearanceInfo s).materials = [.default] := by
  rw [createAppearanceInfo, setLength_one .blank s.materials]
  rfl

end

section Body

variable [IsStrictOrderedRing K] {body : BodyInfo K} {inputData : ℕ → BitVec 32}

theorem changed_changetoBoundingBox
    (hsize : (distinct Near (sizesOf (linkBoxes body inputData))).length ≤ 2 ^ 15) :
    Changed body inputData (changetoBoundingBox body inputData) := by
  have hlinks : changeLinks body.AABBdataType body.linkColdetModels inputData body.links 0 []
      body.shapeSet.shapes = (List.zipWith (changedLink (sizesOf (linkBoxes body inputData)))
        (linkBoxes body inputData) body.links,
        boxShapes body.shapeSet.shapes (distinct Near (sizesOf (linkBoxes body inputData)))) :=
    changeLinks_eq body.AABBdataType body.linkColdetModels inputData body.links 0
      body.shapeSet.shapes (P := []) hsize
  refine ⟨?_, fun i link' ↦ ?_, rfl, appearances_createAppearanceInfo _,
    materials_createAppearanceInfo _, rfl, rfl⟩
  · show (changeLinks _ _ _ _ 0 [] body.shapeSet.shapes).2 = _
    rw [hlinks]
  · show (changeLinks _ _ _ _ 0 [] body.shapeSet.shapes).1[i]? = _ ↔ _
    rw [hlinks, List.getElem?_zipWith]
    constructor
    · intro h
      split at h
      · next boxes link hboxes hlink =>
        exact ⟨link, boxes, hlink, hboxes, (Option.some_inj.1 h).symm⟩
      · cases h
    · rintro ⟨link, boxes, hlink, hboxes, rfl⟩
      rw [hlink, hboxes]

omit [Field K] [LinearOrder K] [IsStrictOrderedRing K] in
theorem mem_sizesOf {i : ℕ} {boxes : List (AABB K)} {box : AABB K}
    (hboxes : (linkBoxes body inputData)[i]? = some (some boxes)) (hbox : box ∈ boxes) :
    box.mExtents ∈ sizesOf (linkBoxes body inputData) :=
  List.mem_flatMap.2 ⟨some boxes, List.mem_of_getElem? hboxes, List.mem_map_of_mem hbox⟩

/-- The shape of a size is a box of nearly that size. -/
theorem exists_isBox (old : List (ShapeInfo K)) {sizes : List (Vector3 K)} {e : Vector3 K}
    (he : e ∈ sizes) : ∃ shapeInfo y,
      (boxShapes old (distinct Near sizes))[classOf Near sizes e]? = some shapeInfo ∧
        IsBox shapeInfo y ∧ Near y e := by
  obtain ⟨y, hy, hnear⟩ := near_classOf (exists_near_of_mem near_refl he)
  obtain ⟨shapeInfo, hget, hisBox⟩ := isBox_boxShapes old hy
  exact ⟨shapeInfo, y, hget, hisBox, hnear⟩

theorem showsBoxes_changedLink (old : List (ShapeInfo K)) {sizes : List (Vector3 K)}
    (hsize : (distinct Near sizes).length ≤ 2 ^ 15)
    {boxes : List (AABB K)} (hboxes : ∀ box ∈ boxes, box.mExtents ∈ sizes) :
    ShowsBoxes (boxShapes old (distinct Near sizes))
      ((distinct (Merges sizes) boxes).map (placeIn sizes)) boxes := by
  have hshows (box : AABB K) (hbox : box.mExtents ∈ sizes) : ∃ y, Near y box.mExtents ∧
      ShowsBox (boxShapes old (distinct Near sizes)) (placeIn sizes box) box.mCenter y := by
    obtain ⟨shapeInfo, y, hget, hisBox, hnear⟩ := exists_isBox old hbox
    exact ⟨y, hnear, rfl, _, shapeInfo,
      shapeIndex_placeBox ((classOf_lt_of_mem hbox).trans_le hsize), hget, hisBox⟩
  have hrefl (box : AABB K) : Merges sizes box box := ⟨near_refl _, rfl⟩
  refine ⟨fun tsi htsi ↦ ?_, fun box hbox ↦ ?_⟩
  · obtain ⟨box, hbox, rfl⟩ := List.mem_map.1 htsi
    have hmem := mem_of_mem_distinct hbox
    exact ⟨box, hmem, hshows box (hboxes box hmem)⟩
  · obtain ⟨b, hb, hmerge⟩ := exists_near_of_mem hrefl hbox
    obtain ⟨shapeInfo, y, hget, hisBox, hnear⟩ := exists_isBox old (hboxes box hbox)
    have hb' := hboxes b (mem_of_mem_distinct hb)
    rw [← hmerge.2] at hget
    exact ⟨_, List.mem_map_of_mem hb, b.mCenter, y, hmerge.1, hnear, rfl, _, shapeInfo,
      shapeIndex_placeBox ((classOf_lt_of_mem hb').trans_le hsize), hget, hisBox⟩

/-! ### When the references are valid -/

theorem short_le {n : ℤ} (h : 0 ≤ n) : short n ≤ n := by
  rw [short, Int.bmod_def]
  omega

section

omit [Field K] [LinearOrder K] [IsStrictOrderedRing K]

/-- The depth that is chosen is the one asked for, as long as the tree is as deep as the link knows
or the depth is above what the link knows. -/
theorem chosenDepth_eq_iff {type : AABBdataType} {model : ColdetModel K} {input : BitVec 32}
    (hdepth : 0 < model.AABBTreeMaxDepth) :
    chosenDepth type model (short model.AABBTreeMaxDepth) input =
        min (requestedDepth type model input) (model.AABBTreeMaxDepth - 1) ↔
      requestedDepth type model input < short model.AABBTreeMaxDepth ∨
        short model.AABBTreeMaxDepth = model.AABBTreeMaxDepth := by
  have hle := short_le hdepth.le
  rw [chosenDepth]
  split <;> omega

theorem levels_pos (root : AABBCollisionNode (AABB K)) : 0 < ColdetModel.levels root := by
  cases root <;> exact Nat.succ_pos _

end

section

omit [IsStrictOrderedRing K]

theorem Changed.length_shapes {body' : BodyInfo K} (h : Changed body inputData body')
    (hsizes : sizesOf (linkBoxes body inputData) ≠ []) :
    body'.shapeSet.shapes.length = (distinct Near (sizesOf (linkBoxes body inputData))).length := by
  rw [h.shapes, length_boxShapes _ (mt distinct_eq_nil_iff.1 hsizes)]

theorem Changed.shapes_of_nil {body' : BodyInfo K} (h : Changed body inputData body')
    (hsizes : sizesOf (linkBoxes body inputData) = []) :
    body'.shapeSet.shapes = body.shapeSet.shapes := by
  rw [h.shapes, hsizes]
  rfl

end

/-- The references of a body that fits its boxes are valid. -/
theorem BoxesFit.valid (hfit : BoxesFit body inputData) (h : body.IsLoaded) :
    CrossReferencesValid (changetoBoundingBox body inputData) inputData := by
  have hchanged := changed_changetoBoundingBox hfit.sizes
  -- Entries that are in range before and among the new shapes are in range afterwards.
  have hrefer {l : List (TransformedShapeIndex K)} (hl : Refer l body.shapeSet.shapes.length)
      (hnew : sizesOf (linkBoxes body inputData) ≠ [] →
        Refer l (distinct Near (sizesOf (linkBoxes body inputData))).length) :
      Refer l (changetoBoundingBox body inputData).shapeSet.shapes.length := by
    by_cases hsizes : sizesOf (linkBoxes body inputData) = []
    · rwa [hchanged.shapes_of_nil hsizes]
    · rw [hchanged.length_shapes hsizes]
      exact hnew hsizes
  have hlinkAt {link' : LinkShapes K} (hmem : link' ∈ (changetoBoundingBox body inputData).links) :
      ∃ (i : ℕ) (link : LinkShapes K) (boxes : Option (List (AABB K))),
        body.links[i]? = some link ∧ (linkBoxes body inputData)[i]? = some boxes ∧
        link' = changedLink (sizesOf (linkBoxes body inputData)) boxes link := by
    obtain ⟨i, hlink'⟩ := List.mem_iff_getElem?.1 hmem
    obtain ⟨link, boxes, hlink, hboxes, heq⟩ := (hchanged.links i _).1 hlink'
    exact ⟨i, link, boxes, hlink, hboxes, heq⟩
  have hshows {i : ℕ} {boxes : List (AABB K)}
      (hboxes : (linkBoxes body inputData)[i]? = some (some boxes)) :
      ShowsBoxes (changetoBoundingBox body inputData).shapeSet.shapes
        ((distinct (Merges (sizesOf (linkBoxes body inputData))) boxes).map
          (placeIn (sizesOf (linkBoxes body inputData)))) boxes := by
    rw [hchanged.shapes]
    exact showsBoxes_changedLink _ hfit.sizes fun box hbox ↦ mem_sizesOf hboxes hbox
  have hentries : ∀ link' ∈ (changetoBoundingBox body inputData).links,
      Refer link'.shapeIndices (changetoBoundingBox body inputData).shapeSet.shapes.length := by
    intro link' hmem
    obtain ⟨i, link, boxes, hlink, hboxes, rfl⟩ := hlinkAt hmem
    cases boxes with
    | none =>
      exact hrefer (h.links link (List.mem_of_getElem? hlink)).shapeIndices fun hsizes ↦
        (hfit.kept hsizes i link hlink hboxes).1
    | some boxes =>
      intro tsi htsi
      obtain ⟨box, -, e, -, -, k, shapeInfo, hindex, hget, -⟩ := (hshows hboxes).of_entry tsi htsi
      rw [hindex, inRange_natCast]
      exact (List.getElem?_eq_some_iff.1 hget).1
  refine ⟨hentries, fun link' hmem sensor hsensor ↦ ?_, fun link' hmem hwc hhwc ↦ ?_,
    fun l hl ↦ ?_, fun link' hmem segment hsegment index hindex ↦ ?_, fun shapeInfo hshape ↦ ?_,
    fun a ha ↦ ?_, fun i link' model root hlink' hmodel hroot hrequested ↦ ?_⟩
  · obtain ⟨i, link, boxes, hlink, hboxes, rfl⟩ := hlinkAt hmem
    cases boxes with
    | none =>
      exact hrefer ((h.links link (List.mem_of_getElem? hlink)).sensors sensor hsensor)
        fun hsizes ↦ (hfit.kept hsizes i link hlink hboxes).2 sensor hsensor
    | some boxes =>
      obtain ⟨sensor', -, rfl⟩ := List.mem_map.1 hsensor
      exact refer_nil _
  · obtain ⟨i, link, boxes, hlink, hboxes, rfl⟩ := hlinkAt hmem
    have hhwc' : hwc ∈ link.hwcs := by cases boxes <;> exact hhwc
    have hlink' := List.mem_of_getElem? hlink
    exact hrefer ((h.links link hlink').hwcs hwc hhwc') fun hsizes ↦
      hfit.hwcs hsizes link hlink' hwc hhwc'
  · rw [hchanged.linkShapeIndices] at hl
    obtain ⟨link', hmem, rfl⟩ := List.mem_map.1 hl
    exact hentries link' hmem
  · obtain ⟨i, link, boxes, hlink, hboxes, rfl⟩ := hlinkAt hmem
    have hsegment' : segment ∈ link.segments := by cases boxes <;> exact hsegment
    have hlink' := List.mem_of_getElem? hlink
    obtain ⟨k, hk, heq⟩ := ((h.links link hlink').segments index).1 ⟨segment, hsegment', hindex⟩
    rw [heq, short_natCast (hk.trans_le (hfit.segments link hlink')), inRange_natCast]
    cases boxes with
    | none => exact hk
    | some boxes =>
      exact (hk.trans_le (hfit.segments_boxes i link boxes hlink hboxes)).trans_eq
        (List.length_map _).symm
  · rw [hchanged.appearances, List.length_singleton]
    by_cases hsizes : sizesOf (linkBoxes body inputData) = []
    · rw [hchanged.shapes_of_nil hsizes] at hshape
      obtain ⟨k, hk⟩ := List.mem_iff_getElem?.1 hshape
      have hlt := (List.getElem?_eq_some_iff.1 hk).1
      rw [h.shapeSet.appearanceIndex k _ hk, inRange_natCast]
      exact hlt.trans_le (hfit.shapes hsizes)
    · obtain ⟨k, hget⟩ := List.mem_iff_getElem?.1 hshape
      have hk := (List.getElem?_eq_some_iff.1 hget).1
      rw [hchanged.length_shapes hsizes] at hk
      obtain ⟨shapeInfo', hget', old, rfl⟩ :=
        isBox_boxShapes body.shapeSet.shapes (List.getElem?_eq_getElem hk)
      rw [← hchanged.shapes, hget] at hget'
      obtain rfl := Option.some_inj.1 hget'
      exact inRange_natCast.2 Nat.zero_lt_one
  · rw [hchanged.appearances] at ha
    obtain rfl := List.mem_singleton.1 ha
    rw [hchanged.materials]
    exact inRange_natCast.2 Nat.zero_lt_one
  · rw [hchanged.linkColdetModels] at hmodel
    rw [hchanged.AABBdataType] at hrequested ⊢
    obtain ⟨link, boxes, hlink, hboxes, rfl⟩ := (hchanged.links i _).1 hlink'
    obtain ⟨tree, rfl, hdepth⟩ := h.linkColdetModels i model _ hmodel hlink
    obtain rfl : tree = some root := by
      cases tree with
      | none => cases hroot
      | some root' => exact hroot
    have hlevels : 0 < (ColdetModel.build (some root)).AABBTreeMaxDepth := by
      rw [ColdetModel.AABBTreeMaxDepth_build]
      exact Int.natCast_pos.2 (levels_pos root)
    have hdepth' : (changedLink (sizesOf (linkBoxes body inputData)) boxes link).AABBmaxDepth =
        short (ColdetModel.build (some root)).AABBTreeMaxDepth := by
      rw [← hdepth]
      cases boxes <;> rfl
    have hchosen := (chosenDepth_eq_iff hlevels).2 (hfit.depths i _ root hmodel hroot hrequested)
    -- The depth is not negative, so the link is given the boxes at that depth.
    have hnonneg : 0 ≤ chosenDepth body.AABBdataType (.build (some root)) link.AABBmaxDepth
        (inputData i) := by
      rw [hdepth, hchosen]
      omega
    have hmodelAt : body.linkColdetModels.getD i (.build none) = .build (some root) := by
      rw [List.getD_eq_getElem?_getD, hmodel, Option.getD_some]
    obtain rfl : boxes = some (ColdetModel.getBoundingBoxData (.build (some root)) (chosenDepth
        body.AABBdataType (.build (some root)) link.AABBmaxDepth (inputData i)).toNat) := by
      have hboxes' := hboxes
      rw [linkBoxes, getElem?_boxesOf, hlink, Option.map_some, Nat.zero_add, hmodelAt, boxesAt,
        if_pos hnonneg, Option.some_inj] at hboxes'
      exact hboxes'.symm
    rw [hdepth', ← hdepth]
    exact ⟨hdepth ▸ hchosen, hshows hboxes⟩

end Body

/-! ### Tiles -/

end OpenHRP.ModelLoader
