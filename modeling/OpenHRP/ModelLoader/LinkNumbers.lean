import OpenHRP.ModelLoader.CreateBody

/-!
# Link numbers

Three components number the links of a model: the model loader, in the order in which it reads the
Joint nodes; the body, in the order in which it traverses its links; and the collision detector, in
the order of the records. The simulator sends positions by the number of the body, and the detector
applies them by its own.

The three orders are the same, and the file's, exactly as long as the numbers fit the 16 bits that
the records store them in (`exists_linkNumbersAgree_iff`).
-/

open Matrix

namespace OpenHRP

theorem LinkTraverse.links_find_root {ι : Type*} [DecidableEq ι] (t : LinkTree ι) :
    (LinkTraverse.find t t.root false true).links = t.links := by
  have hchild : t.childPtr t.root = t.child := if_pos rfl
  simp [LinkTraverse.find, LinkTraverse.traverse, LinkTraverse.push, hchild,
    LinkTraverse.traverseChildren_eq, LinkTraverse.skip_none, LinkTree.links]

namespace ModelLoader

variable {K : Type*}

/-! ### The collision detector -/

/-- A `ColdetModel`: the index of the record it was made from, and where it is. -/
structure ColdetModel (K : Type*) where
  name : String
  linkIndex : ℕ
  p : Vector3 K
  R : Matrix33 K

/-- `ColdetModel::setPosition`. -/
def ColdetModel.setPosition (model : ColdetModel K) (linkPosition : Snapshot.LinkPosition K) :
    ColdetModel K :=
  { model with p := linkPosition.p, R := linkPosition.R }

/-- `ColdetBody::ColdetBody`: a model for every record. -/
def linkColdetModels [Zero K] [One K] (links : List (LinkInfo K)) : List (ColdetModel K) :=
  links.mapIdx fun linkIndex linkInfo ↦ ⟨linkInfo.name, linkIndex, 0, 1⟩

/-- `ColdetBody::setLinkPositions`. -/
def setLinkPositions (linkColdetModels : List (ColdetModel K))
    (linkPositions : List (Snapshot.LinkPosition K)) : List (ColdetModel K) :=
  linkColdetModels.mapIdx fun i model ↦ (linkPositions[i]?).elim model model.setPosition

theorem setLinkPositions_getElem? {models : List (ColdetModel K)}
    {linkPositions : List (Snapshot.LinkPosition K)} {k : ℕ} {model : ColdetModel K}
    {linkPosition : Snapshot.LinkPosition K} (hmodel : models[k]? = some model)
    (hposition : linkPositions[k]? = some linkPosition) :
    (setLinkPositions models linkPositions)[k]? = some (model.setPosition linkPosition) := by
  rw [setLinkPositions, List.getElem?_mapIdx, hmodel, Option.map_some, hposition, Option.elim_some]

/-! ### One numbering -/

variable [Field K] [CMath K]

/-- All components mean the same link by a number. -/
structure LinkNumbersAgree (maxlimit : K) (name : String) (T : JointNodeSet K) (body : Body K) :
    Prop where
  /-- The body is made from what is read. -/
  created : createBody maxlimit name (loadModelFile T) = some body
  /-- Link number `k` of the body is made from record number `k`. -/
  links : (LinkTraverse.find body.character.tree body.character.tree.root false true).links =
    List.range (loadModelFile T).length
  /-- The indices in the records are the parents and the children of the links of the body. -/
  formTree : FormTree (loadModelFile T) body.character.tree
  parent_lt : ∀ p c, body.character.tree.parent c = some p → p < c
  /-- The records are those of the file, and so is the order of siblings. -/
  isReadFrom : T.IsReadFrom (loadModelFile T) 0
  /-- The position of link number `k` is applied to the model made from record number `k`. -/
  setLinkPositions : ∀ (b : Snapshot.BodyState ℕ K) (k : ℕ) (linkInfo : LinkInfo K),
    (loadModelFile T)[k]? = some linkInfo →
      (setLinkPositions (linkColdetModels (loadModelFile T))
        (Snapshot.linkPositions body.character b))[k]? =
          some ⟨linkInfo.name, k, (b.links k).p, (b.links k).R * body.character.Rs k⟩

omit [Field K] [CMath K] in
/-- The links of a tree of nodes are numbered from parents to children. -/
theorem JointNodeSet.parent_lt (T : JointNodeSet K) {p c : ℕ} (h : T.tree.parent c = some p) :
    p < c := by
  have hlt := T.tree.idxOf_parent_lt h
  obtain ⟨hp, hc⟩ := T.tree.parent_mem h
  have hidx : ∀ i ∈ T.tree.links, T.tree.links.idxOf i = i := fun i hi ↦ by
    rw [T.links_tree, List.mem_range] at hi
    have hget := List.nodup_range.idxOf_getElem i (by simpa using hi)
    rwa [List.getElem_range, ← T.links_tree] at hget
  rwa [hidx p hp, hidx c hc] at hlt

/-- **Link numbers mean the same link in every component**, for the model files whose link numbers
fit the 16 bits of a record, and for no others. -/
theorem exists_linkNumbersAgree_iff (maxlimit : K) (name : String) (T : JointNodeSet K) :
    (∃ body, LinkNumbersAgree maxlimit name T body) ↔ T.numJointNodes ≤ 2 ^ 15 := by
  refine ⟨fun ⟨body, h⟩ ↦ numJointNodes_le_of_formTree h.formTree, fun hle ↦ ?_⟩
  have htree := formTree_loadModelFile hle
  have hlength : (loadModelFile T).length = T.numJointNodes := by
    rw [loadModelFile_eq, T.length_records]
  refine ⟨_, createBody_eq name htree, ?_, htree, fun p c ↦ T.parent_lt,
    isReadFrom_loadModelFile hle, fun b k linkInfo hget ↦ ?_⟩
  · rw [hlength]
    exact (LinkTraverse.links_find_root T.tree).trans T.links_tree
  · have hk : k < T.numJointNodes := hlength ▸ (List.getElem?_eq_some_iff.1 hget).1
    have hmodel : (linkColdetModels (loadModelFile T))[k]? = some ⟨linkInfo.name, k, 0, 1⟩ := by
      rw [linkColdetModels, List.getElem?_mapIdx, hget, Option.map_some]
    have hrange : T.tree.links[k]? = some k := by rw [T.links_tree, List.getElem?_range hk]
    let position (i : ℕ) : Snapshot.LinkPosition K :=
      ⟨(b.links i).p, (b.links i).R * ((heapOf maxlimit (loadModelFile T) T.tree).links i).Rs⟩
    have hposition : (T.tree.links.map position)[k]? = some (position k) := by
      rw [List.getElem?_map, hrange, Option.map_some]
    exact setLinkPositions_getElem? hmodel hposition

/-! ### A model that is too large -/

omit [Field K] [CMath K] in
theorem numChildNodes_replicate (n : ℕ) (T : JointNodeSet K) :
    numChildNodes (List.replicate n T) = n * T.numJointNodes := by
  induction n with
  | zero => rw [List.replicate_zero, numChildNodes, Nat.zero_mul]
  | succ n ih => rw [List.replicate_succ, numChildNodes, ih, Nat.succ_mul, Nat.add_comm]

/-- The root of a file with many joints directly below it. -/
def urchin (n : ℕ) : JointNodeSet ℚ :=
  .mk LinkInfo.blank.toLinkParameters
    (List.replicate n (.mk LinkInfo.blank.toLinkParameters []))

/-- With 32768 joints below the root, the last one has a number that does not fit. -/
theorem not_linkNumbersAgree_urchin :
    ¬∃ body, LinkNumbersAgree 0 "urchin" (urchin (2 ^ 15)) body := by
  rintro ⟨body, h⟩
  have hle := numJointNodes_le_of_formTree h.formTree
  rw [urchin, JointNodeSet.numJointNodes, numChildNodes_replicate, JointNodeSet.numJointNodes,
    numChildNodes] at hle
  omega

end ModelLoader

end OpenHRP
