import OpenHRP.Model.Link

/-!
# The links of a model file

`BodyInfo_impl` numbers the Joint nodes of a model file in the order in which it reads them and
writes one `LinkInfo` for each. A `LinkInfo` names its parent and its children by their numbers,
which the interface stores in 16 bits (`short`).

`FormTree` says that records describe a tree. What `readJointNodeSet` writes does, and the tree is
that of the nodes with the links numbered in preorder (`formTree_links`), as long as the numbers
fit.
-/

namespace OpenHRP.ModelLoader

variable {K : Type*}

/-! ### Records -/

/-- The value of a `CORBA::Short` that an `int` is stored in. -/
def short (n : ℤ) : ℤ :=
  n.bmod (2 ^ 16)

theorem short_of_lt {n : ℤ} (hn : -2 ^ 15 ≤ n) (h : n < 2 ^ 15) : short n = n := by
  refine Int.bmod_eq_of_le ?_ ?_ <;> norm_num <;> omega

theorem short_natCast {i : ℕ} (h : i < 2 ^ 15) : short i = i :=
  short_of_lt (by omega) (by exact_mod_cast h)

theorem short_lt (n : ℤ) : short n < 2 ^ 15 := by
  have h : n.bmod (2 ^ 16) < ((2 ^ 16 : ℕ) + 1) / 2 := Int.bmod_lt (by decide)
  norm_num at h
  exact h

/-- A `SensorInfo`, without the values that only sensors of one type have. -/
structure SensorInfo (K : Type*) where
  type : String
  name : String
  id : ℤ
  translation : Vector3 K
  /-- Axis and angle. -/
  rotation : Fin 4 → K

/-- The kinds of lights. -/
inductive LightType where
  | point
  | directional
  | spot
  deriving DecidableEq, Repr

/-- What a light of a model file and a light of a body both have. -/
structure LightAttributes (K : Type*) where
  ambientIntensity : K
  attenuation : Vector3 K
  color : Vector3 K
  intensity : K
  location : Vector3 K
  on : Bool
  radius : K
  direction : Vector3 K
  beamWidth : K
  cutOffAngle : K

/-- A `LightInfo`. -/
structure LightInfo (K : Type*) extends LightAttributes K where
  name : String
  type : LightType
  /-- The upper three rows of a homogeneous matrix, row by row. -/
  transformMatrix : Fin 12 → K

/-- What the nodes of one link say: the part of a `LinkInfo` that does not depend on where the link
is in the tree. -/
structure LinkParameters (K : Type*) where
  name : String
  jointId : ℤ
  jointType : String
  jointAxis : Vector3 K
  ulimit : List K
  llimit : List K
  uvlimit : List K
  lvlimit : List K
  climit : List K
  translation : Vector3 K
  /-- Axis and angle. -/
  rotation : Fin 4 → K
  mass : K
  centerOfMass : Vector3 K
  /-- A matrix, row by row. -/
  inertia : Fin 9 → K
  rotorInertia : K
  rotorResistor : K
  gearRatio : K
  torqueConst : K
  encoderPulse : K
  sensors : List (SensorInfo K)
  lights : List (LightInfo K)

/-- A `LinkInfo`. -/
structure LinkInfo (K : Type*) extends LinkParameters K where
  parentIndex : ℤ
  childIndices : List ℤ

/-- An element of a sequence that `length(n)` has just made. -/
def LinkInfo.blank [Zero K] : LinkInfo K where
  name := ""
  jointId := 0
  jointType := ""
  jointAxis := 0
  ulimit := []
  llimit := []
  uvlimit := []
  lvlimit := []
  climit := []
  translation := 0
  rotation := 0
  mass := 0
  centerOfMass := 0
  inertia := 0
  rotorInertia := 0
  rotorResistor := 0
  gearRatio := 0
  torqueConst := 0
  encoderPulse := 0
  sensors := []
  lights := []
  parentIndex := 0
  childIndices := []

/-- The record of a link, by its index; `none` when the index is out of range. -/
def linkInfoAt (linkInfoSeq : List (LinkInfo K)) (index : ℤ) : Option (LinkInfo K) :=
  if 0 ≤ index then linkInfoSeq[index.toNat]? else none

theorem linkInfoAt_natCast (linkInfoSeq : List (LinkInfo K)) (i : ℕ) :
    linkInfoAt linkInfoSeq i = linkInfoSeq[i]? := by
  rw [linkInfoAt, if_pos (Int.natCast_nonneg i), Int.toNat_natCast]

/-! ### Records that describe a tree -/

/-- The records describe the links reached from a pointer, whose parent is the link `p`. -/
def Records (linkInfoSeq : List (LinkInfo K)) (p : ℤ) : LinkPtr ℕ → Prop
  | .null => True
  | .link i child sibling =>
    (∃ linkInfo, linkInfoSeq[i]? = some linkInfo ∧ linkInfo.parentIndex = p ∧
      linkInfo.childIndices = child.siblings.map Nat.cast) ∧
    Records linkInfoSeq i child ∧ Records linkInfoSeq p sibling

/-- The records describe a tree of links: there is one link without a parent, the root, and
`parentIndex` and `childIndices` name the parent and the children of every link. -/
structure FormTree (linkInfoSeq : List (LinkInfo K)) (t : LinkTree ℕ) : Prop where
  mem_links : ∀ i, i ∈ t.links ↔ i < linkInfoSeq.length
  parentIndex : ∀ (i : ℕ) (linkInfo : LinkInfo K), linkInfoSeq[i]? = some linkInfo →
    ∀ p : ℕ, linkInfo.parentIndex = p ↔ t.parent i = some p
  parentIndex_root : ∀ linkInfo, linkInfoSeq[t.root]? = some linkInfo → linkInfo.parentIndex < 0
  childIndices : ∀ (i : ℕ) (linkInfo : LinkInfo K), linkInfoSeq[i]? = some linkInfo →
    linkInfo.childIndices = (t.children i).map Nat.cast

variable {linkInfoSeq : List (LinkInfo K)} {ptr : LinkPtr ℕ}

theorem Records.of_meets {p : ℤ} (h : Records linkInfoSeq p ptr) {i : ℕ} {child sibling : LinkPtr ℕ}
    (hmeets : ptr.Meets (.link i child sibling)) : ∃ linkInfo, linkInfoSeq[i]? = some linkInfo ∧
      linkInfo.childIndices = child.siblings.map Nat.cast := by
  induction ptr generalizing p with
  | null => simp [LinkPtr.Meets] at hmeets
  | link l c s ihc ihs =>
    obtain ⟨⟨linkInfo, hget, -, hchild⟩, hc, hs⟩ := h
    rcases hmeets with heq | hmeets | hmeets
    · obtain ⟨rfl, rfl, -⟩ := LinkPtr.link.inj heq
      exact ⟨linkInfo, hget, hchild⟩
    · exact ihc hc hmeets
    · exact ihs hs hmeets

theorem Records.of_joins {p i q : ℕ} (h : Records linkInfoSeq p ptr) (hjoins : ptr.Joins p q i) :
    ∃ linkInfo, linkInfoSeq[i]? = some linkInfo ∧ linkInfo.parentIndex = q := by
  induction ptr generalizing p with
  | null => exact hjoins.elim
  | link l c s ihc ihs =>
    obtain ⟨⟨linkInfo, hget, hparent, -⟩, hc, hs⟩ := h
    rcases hjoins with ⟨rfl, rfl⟩ | hjoins | hjoins
    · exact ⟨linkInfo, hget, hparent⟩
    · exact ihc hc hjoins
    · exact ihs hs hjoins

variable {t : LinkTree ℕ}

/-- Records that describe the links below a root without a parent describe a tree. -/
theorem formTree_of_records (hmem : ∀ i, i ∈ t.links ↔ i < linkInfoSeq.length) {root : LinkInfo K}
    (hroot : linkInfoSeq[t.root]? = some root) (hparent : root.parentIndex < 0)
    (hchild : root.childIndices = t.child.siblings.map Nat.cast)
    (h : Records linkInfoSeq t.root t.child) : FormTree linkInfoSeq t := by
  have hlinks : ∀ (i : ℕ) (linkInfo : LinkInfo K), linkInfoSeq[i]? = some linkInfo →
      i ∈ t.links := fun i linkInfo hi ↦ (hmem i).2 (List.getElem?_eq_some_iff.1 hi).1
  refine ⟨hmem, fun i linkInfo hi p ↦ ?_, fun linkInfo hi ↦ ?_, fun i linkInfo hi ↦ ?_⟩
  · by_cases hir : i = t.root
    · subst hir
      obtain rfl := Option.some_inj.1 (hroot.symm.trans hi)
      rw [t.parent_root]
      exact iff_of_false (by omega) (by simp)
    · obtain ⟨q, hq⟩ := t.exists_parent (hlinks i linkInfo hi) hir
      obtain ⟨linkInfo', hi', hq'⟩ := h.of_joins (t.parent_eq_some_iff.1 hq)
      obtain rfl := Option.some_inj.1 (hi'.symm.trans hi)
      rw [hq', hq, Option.some_inj, Nat.cast_inj]
  · obtain rfl := Option.some_inj.1 (hroot.symm.trans hi)
    exact hparent
  · rw [LinkTree.children]
    rcases List.mem_cons.1 (hlinks i linkInfo hi) with rfl | hmem
    · obtain rfl := Option.some_inj.1 (hroot.symm.trans hi)
      rw [LinkTree.childPtr, if_pos rfl, hchild]
    · obtain ⟨c, s, hmeets⟩ := LinkPtr.exists_meets_of_mem_links hmem
      obtain ⟨linkInfo', hi', hc⟩ := h.of_meets hmeets
      obtain rfl := Option.some_inj.1 (hi'.symm.trans hi)
      rw [hc, t.childPtr_of_meets hmeets]

/-- The records of a tree describe what is below any of its pointers. -/
theorem FormTree.records (h : FormTree linkInfoSeq t) (hmeets : t.child.Meets ptr) {p : ℕ}
    (hp : ∀ i ∈ ptr.siblings, t.parent i = some p) : Records linkInfoSeq p ptr := by
  induction ptr generalizing p with
  | null => trivial
  | link i c s ihc ihs =>
    obtain ⟨hmc, hms⟩ := hmeets.below
    have hi : i < linkInfoSeq.length := (h.mem_links i).1 (List.mem_cons_of_mem _ hmeets.mem)
    have hget := List.getElem?_eq_getElem hi
    have hchildPtr : t.childPtr i = c := t.childPtr_of_meets hmeets
    refine ⟨⟨_, hget, (h.parentIndex i _ hget p).2 (hp i (by simp)), ?_⟩, ihc hmc fun c' hc' ↦ ?_,
      ihs hms fun i' hi' ↦ hp i' (List.mem_cons_of_mem _ hi')⟩
    · rw [h.childIndices i _ hget, LinkTree.children, hchildPtr]
    · rw [← t.mem_children, LinkTree.children, hchildPtr]
      exact hc'

theorem FormTree.exists_linkInfo (h : FormTree linkInfoSeq t) {i : ℕ} (hi : i ∈ t.links) :
    ∃ linkInfo, linkInfoSeq[i]? = some linkInfo :=
  ⟨_, List.getElem?_eq_getElem ((h.mem_links i).1 hi)⟩

/-- The records of a tree describe it from its root on. -/
theorem FormTree.records_root (h : FormTree linkInfoSeq t) {root : LinkInfo K}
    (hroot : linkInfoSeq[t.root]? = some root) :
    Records linkInfoSeq root.parentIndex (.link t.root t.child .null) := by
  refine ⟨⟨root, hroot, rfl, ?_⟩, h.records (LinkPtr.meets_self _) fun i hi ↦ ?_, trivial⟩
  · rw [h.childIndices _ _ hroot, LinkTree.children, LinkTree.childPtr, if_pos rfl]
  · rw [← t.mem_children, LinkTree.children, LinkTree.childPtr, if_pos rfl]
    exact hi

theorem LinkTree.links_link_root (t : LinkTree ℕ) :
    (LinkPtr.link t.root t.child .null).links = t.links := by
  rw [LinkPtr.links_link, LinkPtr.links_null, List.append_nil, LinkTree.links]

/-! ### Reading the Joint nodes -/

/-- A `JointNodeSet`: a Joint node with what belongs to its link, and the Joint nodes below it in
the order of the file. -/
inductive JointNodeSet (K : Type*) where
  | mk (jointNode : LinkParameters K) (childJointNodeSets : List (JointNodeSet K))

/-- The Joint node itself. -/
def JointNodeSet.jointNode : JointNodeSet K → LinkParameters K
  | .mk jointNode _ => jointNode

/-- The Joint nodes directly below. -/
def JointNodeSet.childJointNodeSets : JointNodeSet K → List (JointNodeSet K)
  | .mk _ childJointNodeSets => childJointNodeSets

mutual

/-- The number of Joint nodes from a node on. -/
def JointNodeSet.numJointNodes : JointNodeSet K → ℕ
  | .mk _ childJointNodeSets => numChildNodes childJointNodeSets + 1

/-- The number of Joint nodes in a list of trees. -/
def numChildNodes : List (JointNodeSet K) → ℕ
  | [] => 0
  | T :: l => T.numJointNodes + numChildNodes l

end

/-- The state of the recursion: `links_` and `currentIndex`. -/
structure Reader (K : Type*) where
  links : List (LinkInfo K)
  currentIndex : ℕ

mutual

/-- `readJointNodeSet`: the index of the link, and what the recursion leaves behind. -/
def readJointNodeSet : JointNodeSet K → Reader K → ℤ → ℕ × Reader K
  | .mk jointNode childJointNodeSets, r, parentIndex =>
    let index := r.currentIndex
    let children := readChildren childJointNodeSets ⟨r.links, r.currentIndex + 1⟩ index
    let linkInfo : LinkInfo K := ⟨jointNode, short parentIndex, children.1⟩
    (index, ⟨children.2.links.set index linkInfo, children.2.currentIndex⟩)

/-- The loop of `readJointNodeSet` over the children: their indices, as they are stored. -/
def readChildren : List (JointNodeSet K) → Reader K → ℤ → List ℤ × Reader K
  | [], r, _ => ([], r)
  | childJointNodeSet :: l, r, index =>
    let child := readJointNodeSet childJointNodeSet r index
    let rest := readChildren l child.2 index
    (short child.1 :: rest.1, rest.2)

end

/-- The part of `loadModelFile` that fills `links_` from the root of the Joint nodes. -/
def loadModelFile [Zero K] (rootJointNodeSet : JointNodeSet K) : List (LinkInfo K) :=
  (readJointNodeSet rootJointNodeSet
    ⟨List.replicate rootJointNodeSet.numJointNodes LinkInfo.blank, 0⟩ (-1)).2.links

/-! ### What is read -/

mutual

/-- The links below a node that has the number `index`, numbered in the order of the file. -/
def JointNodeSet.childPtr : JointNodeSet K → ℕ → LinkPtr ℕ
  | .mk _ childJointNodeSets, index => numbered childJointNodeSets (index + 1)

/-- The links of a list of trees, numbered from `index` on. -/
def numbered : List (JointNodeSet K) → ℕ → LinkPtr ℕ
  | [], _ => .null
  | T :: l, index => .link index (T.childPtr index) (numbered l (index + T.numJointNodes))

end

mutual

/-- The records of a tree of nodes, the first of which has the number `index`. -/
def JointNodeSet.records : JointNodeSet K → ℕ → ℤ → List (LinkInfo K)
  | .mk jointNode childJointNodeSets, index, parentIndex =>
    ⟨jointNode, short parentIndex,
      (numbered childJointNodeSets (index + 1)).siblings.map fun i : ℕ ↦ short i⟩ ::
      childRecords childJointNodeSets (index + 1) index

/-- The records of a list of trees. -/
def childRecords : List (JointNodeSet K) → ℕ → ℤ → List (LinkInfo K)
  | [], _, _ => []
  | T :: l, index, parentIndex =>
    T.records index parentIndex ++ childRecords l (index + T.numJointNodes) parentIndex

end

/-- The record of the first node of a tree. -/
def JointNodeSet.root (T : JointNodeSet K) (index : ℕ) (parentIndex : ℤ) : LinkInfo K where
  toLinkParameters := T.jointNode
  parentIndex := short parentIndex
  childIndices := (T.childPtr index).siblings.map fun i : ℕ ↦ short i

theorem JointNodeSet.parentIndex_root (T : JointNodeSet K) (index : ℕ) (parentIndex : ℤ) :
    (T.root index parentIndex).parentIndex = short parentIndex :=
  rfl

theorem JointNodeSet.records_eq_cons (T : JointNodeSet K) (index : ℕ) (p : ℤ) :
    T.records index p =
      T.root index p :: childRecords T.childJointNodeSets (index + 1) index := by
  cases T
  rw [records]
  rfl

mutual

theorem JointNodeSet.length_records :
    ∀ (T : JointNodeSet K) (index : ℕ) (p : ℤ), (T.records index p).length = T.numJointNodes
  | .mk _ l, index, p => by
    rw [JointNodeSet.records, JointNodeSet.numJointNodes, List.length_cons, length_childRecords]

theorem length_childRecords : ∀ (l : List (JointNodeSet K)) (index : ℕ) (p : ℤ),
    (childRecords l index p).length = numChildNodes l
  | [], _, _ => rfl
  | T :: l, index, p => by
    rw [childRecords, numChildNodes, List.length_append, T.length_records, length_childRecords]

end

mutual

/-- Reading a tree fills the part of `links_` that starts at `currentIndex` with its records. -/
theorem readJointNodeSet_eq : ∀ (T : JointNodeSet K) (pre old post : List (LinkInfo K)) (p : ℤ),
    old.length = T.numJointNodes → readJointNodeSet T ⟨pre ++ old ++ post, pre.length⟩ p =
      (pre.length, ⟨pre ++ T.records pre.length p ++ post, pre.length + T.numJointNodes⟩)
  | .mk jointNode l, pre, old, post, p, hold => by
    obtain ⟨x, old, rfl⟩ : ∃ x old', old = x :: old' :=
      List.exists_cons_of_length_eq_add_one hold
    rw [JointNodeSet.numJointNodes, List.length_cons, Nat.add_right_cancel_iff] at hold
    have hchildren := readChildren_eq l (pre ++ [x]) old post pre.length hold
    rw [List.length_append, List.length_singleton, List.append_assoc pre [x] old] at hchildren
    rw [readJointNodeSet, List.singleton_append] at *
    rw [hchildren]
    simp only [JointNodeSet.records, JointNodeSet.numJointNodes]
    simp only [List.append_assoc, List.cons_append, List.nil_append, List.set_append_right _ _
      le_rfl, Nat.sub_self, List.set_cons_zero, add_assoc, add_comm 1]

theorem readChildren_eq : ∀ (l : List (JointNodeSet K)) (pre old post : List (LinkInfo K)) (p : ℤ),
    old.length = numChildNodes l → readChildren l ⟨pre ++ old ++ post, pre.length⟩ p =
      ((numbered l pre.length).siblings.map fun i : ℕ ↦ short i,
        ⟨pre ++ childRecords l pre.length p ++ post, pre.length + numChildNodes l⟩)
  | [], pre, old, post, p, hold => by
    obtain rfl : old = [] := List.length_eq_zero_iff.1 hold
    simp [readChildren, numbered, childRecords, numChildNodes]
  | T :: l, pre, old, post, p, hold => by
    rw [numChildNodes] at hold
    obtain ⟨old₁, old₂, rfl, hold₁⟩ : ∃ old₁ old₂, old = old₁ ++ old₂ ∧
        old₁.length = T.numJointNodes :=
      ⟨old.take T.numJointNodes, old.drop T.numJointNodes, (List.take_append_drop _ _).symm,
        List.length_take_of_le (by omega)⟩
    rw [List.length_append, hold₁, Nat.add_left_cancel_iff] at hold
    have hT := readJointNodeSet_eq T pre old₁ (old₂ ++ post) p hold₁
    have hl := readChildren_eq l (pre ++ T.records pre.length p) old₂ post p hold
    rw [List.length_append, T.length_records] at hl
    rw [readChildren, ← List.append_assoc pre, List.append_assoc _ old₂, hT,
      ← List.append_assoc _ old₂, hl]
    simp only [numbered, LinkPtr.siblings_link, List.map_cons, childRecords, numChildNodes,
      List.append_assoc, add_assoc]

end

theorem loadModelFile_eq [Zero K] (T : JointNodeSet K) : loadModelFile T = T.records 0 (-1) := by
  have h := readJointNodeSet_eq T [] (List.replicate T.numJointNodes .blank) [] (-1)
    List.length_replicate
  rw [List.nil_append, List.append_nil, List.length_nil] at h
  rw [loadModelFile, h, List.nil_append, List.append_nil]

/-! ### The tree that is read -/

mutual

theorem JointNodeSet.links_childPtr : ∀ (T : JointNodeSet K) (index : ℕ),
    index :: (T.childPtr index).links = List.range' index T.numJointNodes
  | .mk _ l, index => by
    rw [JointNodeSet.childPtr, JointNodeSet.numJointNodes, links_numbered, List.range'_succ]

/-- The links of a list of trees are numbered in preorder. -/
theorem links_numbered : ∀ (l : List (JointNodeSet K)) (index : ℕ),
    (numbered l index).links = List.range' index (numChildNodes l)
  | [], _ => rfl
  | T :: l, index => by
    rw [numbered, LinkPtr.links_link, ← List.cons_append, T.links_childPtr, links_numbered,
      numChildNodes, List.range'_append_1]

end

/-- The tree of links of a tree of nodes, every link named by its number. -/
def JointNodeSet.tree (T : JointNodeSet K) : LinkTree ℕ where
  root := 0
  child := T.childPtr 0
  nodup := T.links_childPtr 0 ▸ List.nodup_range'

theorem JointNodeSet.links_tree (T : JointNodeSet K) :
    T.tree.links = List.range T.numJointNodes := by
  rw [List.range_eq_range', ← T.links_childPtr 0]
  rfl

theorem map_short {l : List ℕ} (h : ∀ i ∈ l, i < 2 ^ 15) :
    (l.map fun i : ℕ ↦ short i) = l.map Nat.cast :=
  List.map_congr_left fun i hi ↦ short_natCast (h i hi)

theorem map_short_siblings {l : List (JointNodeSet K)} {index : ℕ}
    (h : index + numChildNodes l ≤ 2 ^ 15) :
    ((numbered l index).siblings.map fun i : ℕ ↦ short i) =
      (numbered l index).siblings.map Nat.cast := by
  refine map_short fun i hi ↦ ?_
  have hmem := LinkPtr.siblings_subset _ hi
  rw [links_numbered, List.mem_range'_1] at hmem
  omega

mutual

/-- As long as the numbers fit, the records of a tree describe it. -/
theorem JointNodeSet.records_childPtr : ∀ (T : JointNodeSet K) (pre post : List (LinkInfo K))
    (p : ℤ), pre.length + T.numJointNodes ≤ 2 ^ 15 →
      Records (pre ++ T.records pre.length p ++ post) pre.length (T.childPtr pre.length)
  | .mk jointNode l, pre, post, p, h => by
    rw [JointNodeSet.numJointNodes] at h
    set root : LinkInfo K := ⟨jointNode, short p,
      (numbered l (pre.length + 1)).siblings.map fun i : ℕ ↦ short i⟩ with hroot
    have hl := records_numbered l (pre ++ [root]) post pre.length (by simp; omega) (by omega)
    rw [List.length_append, List.length_singleton] at hl
    rw [JointNodeSet.records, JointNodeSet.childPtr, ← hroot]
    simpa only [List.append_assoc, List.cons_append, List.nil_append] using hl

theorem records_numbered : ∀ (l : List (JointNodeSet K)) (pre post : List (LinkInfo K)) (p : ℕ),
    pre.length + numChildNodes l ≤ 2 ^ 15 → p < 2 ^ 15 →
      Records (pre ++ childRecords l pre.length p ++ post) p (numbered l pre.length)
  | [], _, _, _, _, _ => trivial
  | T :: l, pre, post, p, h, hp => by
    rw [numChildNodes] at h
    have hT := T.records_childPtr pre (childRecords l (pre.length + T.numJointNodes) p ++ post) p
      (by omega)
    have hl := records_numbered l (pre ++ T.records pre.length p) post p
      (by rw [List.length_append, T.length_records]; omega) hp
    rw [List.length_append, T.length_records] at hl
    rw [childRecords, numbered]
    simp only [List.append_assoc] at hT hl ⊢
    refine ⟨⟨T.root pre.length p, ?_, ?_, ?_⟩, hT, hl⟩
    · rw [List.getElem?_append_right le_rfl, Nat.sub_self, T.records_eq_cons]
      rfl
    · rw [T.parentIndex_root]
      exact short_natCast hp
    · cases T with
      | mk jointNode l' =>
        rw [JointNodeSet.numJointNodes] at h
        exact map_short_siblings (by omega)

end

theorem JointNodeSet.numJointNodes_pos (T : JointNodeSet K) : 0 < T.numJointNodes := by
  cases T
  rw [numJointNodes]
  omega

/-- The model file as it is read describes a tree, when its numbers fit. -/
theorem formTree_loadModelFile [Zero K] {T : JointNodeSet K} (h : T.numJointNodes ≤ 2 ^ 15) :
    FormTree (loadModelFile T) T.tree := by
  rw [loadModelFile_eq]
  have hrecords := T.records_childPtr [] [] (-1) (by simpa using h)
  rw [List.nil_append, List.append_nil, List.length_nil] at hrecords
  have hroot : (T.records 0 (-1))[0]? = some (T.root 0 (-1)) := by
    rw [T.records_eq_cons]
    rfl
  refine formTree_of_records (fun i ↦ ?_) hroot ?_ ?_ hrecords
  · rw [T.links_tree, List.mem_range, T.length_records]
  · show short (-1) < 0
    decide
  · cases T with
    | mk jointNode l =>
      rw [JointNodeSet.numJointNodes] at h
      exact map_short_siblings (by omega)

mutual

/-- No stored child index exceeds a `short`. -/
theorem JointNodeSet.childIndices_lt : ∀ (T : JointNodeSet K) (index : ℕ) (p : ℤ),
    ∀ linkInfo ∈ T.records index p, ∀ c ∈ linkInfo.childIndices, c < 2 ^ 15
  | .mk _ l, index, p, linkInfo, hmem, c, hc => by
    rw [JointNodeSet.records] at hmem
    rcases List.mem_cons.1 hmem with rfl | hmem
    · obtain ⟨i, -, rfl⟩ := List.mem_map.1 hc
      exact short_lt i
    · exact childIndices_lt_of_mem l (index + 1) index linkInfo hmem c hc

theorem childIndices_lt_of_mem : ∀ (l : List (JointNodeSet K)) (index : ℕ) (p : ℤ),
    ∀ linkInfo ∈ childRecords l index p, ∀ c ∈ linkInfo.childIndices, c < 2 ^ 15
  | T :: l, index, p, linkInfo, hmem, c, hc => by
    rw [childRecords] at hmem
    rcases List.mem_append.1 hmem with hmem | hmem
    · exact T.childIndices_lt index p linkInfo hmem c hc
    · exact childIndices_lt_of_mem l _ p linkInfo hmem c hc

end

/-- Records that describe a tree of links have numbers that fit. -/
theorem numJointNodes_le_of_formTree [Zero K] {T : JointNodeSet K} {t : LinkTree ℕ}
    (h : FormTree (loadModelFile T) t) : T.numJointNodes ≤ 2 ^ 15 := by
  rw [loadModelFile_eq] at h
  by_contra hlt
  -- the link with the first number that does not fit is a child of no link
  have hmem : 2 ^ 15 ∈ t.links := (h.mem_links _).2 (by rw [T.length_records]; omega)
  have hroot : t.root = 0 := by
    by_contra hne
    have hzero : 0 ∈ t.links := (h.mem_links 0).2 (T.length_records 0 (-1) ▸ T.numJointNodes_pos)
    obtain ⟨q, hq⟩ := t.exists_parent hzero (Ne.symm hne)
    have hget : (T.records 0 (-1))[0]? = some (T.root 0 (-1)) := by
      rw [T.records_eq_cons]
      rfl
    have hparent : short (-1) = q := (h.parentIndex 0 _ hget q).2 hq
    rw [short_of_lt (by omega) (by omega)] at hparent
    omega
  obtain ⟨q, hq⟩ := t.exists_parent hmem (by rw [hroot]; decide)
  have hqlt := (h.mem_links q).1 (t.parent_mem hq).1
  have hget := List.getElem?_eq_getElem hqlt
  have hchild : ((2 ^ 15 : ℕ) : ℤ) ∈ ((T.records 0 (-1))[q]).childIndices := by
    rw [h.childIndices q _ hget]
    exact List.mem_map_of_mem (t.mem_children.2 hq)
  have hlt' := T.childIndices_lt 0 (-1) _ (List.getElem_mem hqlt) _ hchild
  norm_num at hlt'

/-! ### The order of the file -/

mutual

/-- From link `i` on, the child indices lead through the nodes of a tree in the order of the file,
and every link has the parameters of its node. -/
def JointNodeSet.IsReadFrom (linkInfoSeq : List (LinkInfo K)) : JointNodeSet K → ℤ → Prop
  | .mk jointNode childJointNodeSets, i =>
    ∃ linkInfo, linkInfoAt linkInfoSeq i = some linkInfo ∧
      linkInfo.toLinkParameters = jointNode ∧
      AreReadFrom linkInfoSeq childJointNodeSets linkInfo.childIndices

/-- The trees of a list are read from a list of links. -/
def AreReadFrom (linkInfoSeq : List (LinkInfo K)) : List (JointNodeSet K) → List ℤ → Prop
  | [], [] => True
  | T :: l, i :: indices => T.IsReadFrom linkInfoSeq i ∧ AreReadFrom linkInfoSeq l indices
  | _, _ => False

end

mutual

theorem JointNodeSet.isReadFrom_records : ∀ (T : JointNodeSet K) (pre post : List (LinkInfo K))
    (p : ℤ), pre.length + T.numJointNodes ≤ 2 ^ 15 →
      T.IsReadFrom (pre ++ T.records pre.length p ++ post) pre.length
  | .mk jointNode l, pre, post, p, h => by
    rw [JointNodeSet.numJointNodes] at h
    set root := (JointNodeSet.mk jointNode l).root pre.length p with hroot
    have hl := areReadFrom_childRecords l (pre ++ [root]) post pre.length
      (by rw [List.length_append, List.length_singleton]; omega)
    rw [List.length_append, List.length_singleton] at hl
    rw [JointNodeSet.records_eq_cons, ← hroot]
    simp only [List.append_assoc, List.cons_append, List.nil_append] at hl ⊢
    refine ⟨root, ?_, rfl, ?_⟩
    · rw [linkInfoAt_natCast, List.getElem?_append_right le_rfl, Nat.sub_self,
        List.getElem?_cons_zero]
    · have hchild : root.childIndices = (numbered l (pre.length + 1)).siblings.map Nat.cast :=
        map_short_siblings (by omega)
      rw [hchild]
      exact hl

theorem areReadFrom_childRecords : ∀ (l : List (JointNodeSet K)) (pre post : List (LinkInfo K))
    (p : ℤ), pre.length + numChildNodes l ≤ 2 ^ 15 →
      AreReadFrom (pre ++ childRecords l pre.length p ++ post) l
        ((numbered l pre.length).siblings.map Nat.cast)
  | [], _, _, _, _ => trivial
  | T :: l, pre, post, p, h => by
    rw [numChildNodes] at h
    have hT := T.isReadFrom_records pre (childRecords l (pre.length + T.numJointNodes) p ++ post) p
      (by omega)
    have hl := areReadFrom_childRecords l (pre ++ T.records pre.length p) post p
      (by rw [List.length_append, T.length_records]; omega)
    rw [List.length_append, T.length_records] at hl
    rw [childRecords, numbered]
    simp only [List.append_assoc] at hT hl ⊢
    exact ⟨hT, hl⟩

end

/-- From the root on, the links that are read are those of the file, in its order. -/
theorem isReadFrom_loadModelFile [Zero K] {T : JointNodeSet K} (h : T.numJointNodes ≤ 2 ^ 15) :
    T.IsReadFrom (loadModelFile T) 0 := by
  have hread := T.isReadFrom_records [] [] (-1) (by simpa using h)
  rwa [List.nil_append, List.append_nil, List.length_nil, ← loadModelFile_eq] at hread

end OpenHRP.ModelLoader
