import OpenHRP.ModelLoader.CopyBody
import OpenHRP.Model.TraverseOrder

/-!
# Link and joint indices

`Body::updateLinkTree` runs once over the links in traverse order. It numbers them, enters them by
name and by joint ID, and then cuts the table of joints behind the largest ID and fills its gaps
with dummy links.

Whatever the order of the joint IDs, with gaps and with IDs beyond the number of links, the two
numberings agree with what they are looked up by (`updateLinkTree_indices`), provided that no two
links claim one joint ID.
-/

open Matrix

namespace OpenHRP.ModelLoader

variable {ι K B C : Type*}

/-! ### The program -/

/-- An entry of the table of joints: a link of the tree, or one made for the table. -/
inductive JointPtr (ι K : Type*) where
  | link (link : ι)
  | empty (link : ModelLink K)

namespace JointPtr

/-- `joint->jointId`. -/
def jointId (links : ι → ModelLink K) : JointPtr ι K → ℤ
  | link i => (links i).link.jointId
  | empty l => l.link.jointId

end JointPtr

/-- What `updateLinkTree` writes: `body` and `index` of the links and the members of the body. -/
structure BodyRecords (ι K B : Type*) where
  body : ι → B
  index : ι → ℤ
  linkTraverse : LinkTraverse ι
  nameToLinkMap : String → Option ι
  jointIdToLinkArray : List (JointPtr ι K)
  totalMass : K
  isStaticModel : Bool

/-- The records while the loop over the links runs: a null pointer in the table of joints is
`none`. -/
structure Numbering (ι B : Type*) where
  body : ι → B
  index : ι → ℤ
  nameToLinkMap : String → Option ι
  jointIdToLinkArray : List (Option ι)
  maxJointID : ℤ

/-- `new Link`, in the memory given. -/
def newLink (memory : ModelLink K) : ModelLink K :=
  { memory with
    link := { memory.link with jointId := -1, jointType := .fixedJoint }
    name := ""
    isCrawler := false
    sensors := []
    lights := [] }

section Program

variable [Field K]

/-- `createEmptyJoint`, in the memory given. -/
def createEmptyJoint (memory : ModelLink K) (jointId : ℤ) : ModelLink K :=
  let empty := newLink memory
  { empty with
    link :=
      { empty.link with
        jointId := jointId
        p := 0
        R := 1
        v := 0
        w := 0
        dv := 0
        dw := 0
        q := 0
        dq := 0
        ddq := 0
        u := 0
        a := 0
        d := 0
        b := 0
        m := 0
        I := 0
        c := 0
        wc := 0
        vo := 0
        dvo := 0
        fext := 0
        tauext := 0
        Jm2 := 0 }
    Rs := 1
    ulimit := 0
    llimit := 0
    uvlimit := 0
    lvlimit := 0
    Ir := 0
    gearRatio := 1 }

/-- The loop over the table that replaces null pointers. The memory for an empty joint is found
where the table has it. -/
def fillEmptyJoints (memory : ℕ → ModelLink K) (array : List (Option ι)) : List (JointPtr ι K) :=
  array.mapIdx fun i slot ↦ slot.elim (.empty (createEmptyJoint (memory i) i)) .link

/-- `resize` on the table of joints. -/
def resize (array : List (Option ι)) (n : ℕ) : List (Option ι) :=
  array.take n ++ List.replicate (n - array.length) none

variable [DecidableEq ι]

/-- One turn of the loop over the links, for the link at the position given. -/
def enterLink (this : B) (links : ι → ModelLink K) (r : Numbering ι B) (entry : ι × ℕ) :
    Numbering ι B :=
  let (link, i) := entry
  let table := registerJoint (fun i ↦ (links i).link) (r.jointIdToLinkArray, r.maxJointID) link
  { body := Function.update r.body link this
    index := Function.update r.index link i
    nameToLinkMap := Function.update r.nameToLinkMap (links link).name (some link)
    jointIdToLinkArray := table.1
    maxJointID := table.2 }

/-- `Body::updateLinkTree`. -/
def BodyRecords.updateLinkTree (this : B) (t : LinkTree ι) (links : ι → ModelLink K)
    (memory : ℕ → ModelLink K) (r : BodyRecords ι K B) : BodyRecords ι K B :=
  let traverse := LinkTraverse.find t t.root false true
  let n := traverse.links.length
  let loop := traverse.links.zipIdx.foldl (enterLink this links)
    ⟨r.body, r.index, fun _ ↦ none, List.replicate n none, -1⟩
  let joints := fillEmptyJoints memory
    (resize loop.jointIdToLinkArray (loop.maxJointID + 1).toNat)
  { body := loop.body
    index := loop.index
    linkTraverse := traverse
    nameToLinkMap := loop.nameToLinkMap
    jointIdToLinkArray := joints
    totalMass := (traverse.links.map fun i ↦ (links i).link.m).sum
    isStaticModel := (links t.root).link.jointType = .fixedJoint ∧ joints.length = 0 }

end Program

/-! ### The loop over the links -/

section Loop

variable [DecidableEq ι] {this : B} {links : ι → ModelLink K}

/-- The table of joints is the one that `registerJoint` alone makes. -/
theorem table_foldl (l : List (ι × ℕ)) (r : Numbering ι B) :
    ((l.foldl (enterLink this links) r).jointIdToLinkArray,
        (l.foldl (enterLink this links) r).maxJointID) =
      (l.map Prod.fst).foldl (registerJoint fun i ↦ (links i).link)
        (r.jointIdToLinkArray, r.maxJointID) := by
  induction l generalizing r with
  | nil => rfl
  | cons entry l ih => exact ih _

/-- Each link gets the number of its turn. -/
theorem index_foldl {l : List ι} (hl : l.Nodup) (k : ℕ) (r : Numbering ι B) (i : ι) :
    ((l.zipIdx k).foldl (enterLink this links) r).index i =
      if i ∈ l then ((k + l.idxOf i : ℕ) : ℤ) else r.index i := by
  induction l generalizing k r with
  | nil => rfl
  | cons j l ih =>
    obtain ⟨hj, hl⟩ := List.nodup_cons.1 hl
    rw [List.zipIdx_cons, List.foldl_cons, ih hl]
    rcases eq_or_ne i j with rfl | hij
    · rw [if_neg hj, if_pos List.mem_cons_self, List.idxOf_cons_self]
      exact Function.update_self _ _ _
    · have hmem : i ∈ j :: l ↔ i ∈ l := by simp [hij]
      simp only [hmem, List.idxOf_cons_ne l (Ne.symm hij)]
      split_ifs
      · congr 1
        omega
      · exact Function.update_of_ne hij _ _

section

omit [DecidableEq ι]

/-- The largest joint ID is that of a link entered. -/
theorem maxJointID_foldl (s : Store ι K) (l : List ι) (r : List (Option ι) × ℤ) :
    (l.foldl (registerJoint s) r).2 = r.2 ∨
      ∃ i ∈ l, (s i).jointId = (l.foldl (registerJoint s) r).2 := by
  induction l generalizing r with
  | nil => exact .inl rfl
  | cons j l ih =>
    rw [List.foldl_cons]
    rcases ih (registerJoint s r j) with h | ⟨i, hi, h⟩
    · rw [h, registerJoint]
      split_ifs with hid
      · rcases max_cases r.2 (s j).jointId with ⟨hmax, -⟩ | ⟨hmax, -⟩
        · exact .inl hmax
        · exact .inr ⟨j, List.mem_cons_self, hmax.symm⟩
      · exact .inl rfl
    · exact .inr ⟨i, List.mem_cons_of_mem j hi, h⟩

/-- The table has a slot for the largest joint ID. -/
theorem maxJointID_lt_length (s : Store ι K) (l : List ι) {r : List (Option ι) × ℤ}
    (h : r.2 < r.1.length) :
    (l.foldl (registerJoint s) r).2 < (l.foldl (registerJoint s) r).1.length := by
  induction l generalizing r with
  | nil => exact h
  | cons j l ih =>
    refine ih ?_
    rw [registerJoint]
    split_ifs with hid
    · show max r.2 (s j).jointId < _
      rw [List.length_set, List.length_append, List.length_replicate]
      omega
    · exact h

/-- What the loop has entered after all links. -/
theorem registered_links {t : LinkTree ι} {s : Store ι K} (hdistinct : ∀ i ∈ t.links, ∀ j ∈ t.links,
      0 ≤ (s i).jointId → (s i).jointId = (s j).jointId → i = j) :
    Registered s t.links
      (t.links.foldl (registerJoint s) (List.replicate t.links.length none, -1)) := by
  refine registered_foldl (l := []) ⟨fun k i ↦ ?_, by simp, ?_, le_rfl⟩ t.links_nodup hdistinct
  · rw [List.getElem?_replicate]
    split_ifs <;> simp
  · rw [List.length_replicate]
    omega

/-- There is a joint for every ID up to the largest, and none behind it. -/
theorem numJoints_bounds {t : LinkTree ι} {s : Store ι K} (hdistinct : ∀ i ∈ t.links, ∀ j ∈ t.links,
      0 ≤ (s i).jointId → (s i).jointId = (s j).jointId → i = j) :
    (∀ i ∈ t.links, (s i).jointId < numJoints t s) ∧
      (numJoints t s = 0 ∨ ∃ i ∈ t.links, (s i).jointId + 1 = numJoints t s) := by
  have hreg := registered_links hdistinct
  have hlt := hreg.lt_length
  have hmin := hreg.neg_one_le
  have hlen : (numJoints t s : ℤ) =
      (t.links.foldl (registerJoint s) (List.replicate t.links.length none, -1)).2 + 1 := by
    rw [numJoints, jointIdToLinkArray, List.length_take]
    omega
  refine ⟨fun i hi ↦ ?_, ?_⟩
  · have hle := hreg.le_max i hi
    omega
  · rcases maxJointID_foldl s t.links (List.replicate t.links.length none, -1) with h | ⟨i, hi, h⟩
    · exact .inl (by omega)
    · exact .inr ⟨i, hi, by omega⟩

end

end Loop

/-! ### The numberings -/

/-- The numbers of the links and of the joints agree with the tables of a body. -/
structure Indexed [DecidableEq ι] (t : LinkTree ι) (links : ι → ModelLink K)
    (body : BodyRecords ι K B) : Prop where
  /-- `link(k)->index` is `k`. -/
  index_link : ∀ (k : ℕ) i, body.linkTraverse.links[k]? = some i → body.index i = k
  links_nodup : body.linkTraverse.links.Nodup
  mem_links : ∀ i, i ∈ body.linkTraverse.links ↔ i ∈ t.links
  index_parent : ∀ i p, t.parent i = some p → body.index p < body.index i
  jointId_lt : ∀ i ∈ t.links, (links i).link.jointId < body.jointIdToLinkArray.length
  /-- No slot is behind the largest joint ID. -/
  numJoints_le : body.jointIdToLinkArray.length = 0 ∨
    ∃ i ∈ t.links, (links i).link.jointId + 1 = body.jointIdToLinkArray.length
  /-- `joint(k)->jointId` is `k`, for empty joints too. -/
  jointId_joint : ∀ (k : ℕ) joint, body.jointIdToLinkArray[k]? = some joint →
    joint.jointId links = k
  joint_jointId : ∀ i ∈ t.links, 0 ≤ (links i).link.jointId →
    body.jointIdToLinkArray[(links i).link.jointId.toNat]? = some (.link i)
  isStaticModel_iff : body.isStaticModel = true ↔
    (links t.root).link.jointType = .fixedJoint ∧ ∀ i ∈ t.links, (links i).link.jointId < 0

section Numberings

variable [Field K] [DecidableEq ι] {this : B} {t : LinkTree ι} {links : ι → ModelLink K}
  {memory : ℕ → ModelLink K} {r : BodyRecords ι K B}

section

omit [DecidableEq ι]

theorem resize_of_le {array : List (Option ι)} {n : ℕ} (h : n ≤ array.length) :
    resize array n = array.take n := by
  rw [resize, Nat.sub_eq_zero_of_le h, List.replicate_zero, List.append_nil]

theorem getElem?_fillEmptyJoints (array : List (Option ι)) (k : ℕ) :
    (fillEmptyJoints memory array)[k]? = array[k]?.map
      fun slot ↦ slot.elim (.empty (createEmptyJoint (memory k) k)) .link := by
  rw [fillEmptyJoints, List.getElem?_mapIdx]

end

omit [Field K] in
theorem links_find_root (t : LinkTree ι) :
    (LinkTraverse.find t t.root false true).links = t.links := by
  rw [LinkTraverse.find_downward, t.below_root]

theorem index_updateLinkTree {i : ι} (hi : i ∈ t.links) :
    (r.updateLinkTree this t links memory).index i = t.links.idxOf i := by
  have hlinks : (LinkTraverse.find t t.root false true).links = t.links :=
    links_find_root t
  rw [BodyRecords.updateLinkTree]
  simp only [hlinks]
  rw [index_foldl t.links_nodup, if_pos hi, Nat.zero_add]

/-- The table of joints, with the gaps filled. -/
theorem joints_updateLinkTree :
    (r.updateLinkTree this t links memory).jointIdToLinkArray =
      fillEmptyJoints memory (OpenHRP.jointIdToLinkArray t fun i ↦ (links i).link) := by
  have hlinks : (LinkTraverse.find t t.root false true).links = t.links :=
    links_find_root t
  set start : Numbering ι B :=
    ⟨r.body, r.index, fun _ ↦ none, List.replicate t.links.length none, -1⟩ with hstart
  have htable : (_, _) = (_ : List (Option ι) × ℤ) :=
    @table_foldl _ _ _ _ this links t.links.zipIdx start
  rw [List.zipIdx_map_fst] at htable
  have hlt := maxJointID_lt_length (r := (List.replicate t.links.length none, -1))
    (fun i ↦ (links i).link) t.links (by simp; omega)
  have harray := congrArg Prod.fst htable
  have hmax := congrArg Prod.snd htable
  simp only [hstart] at harray hmax
  rw [BodyRecords.updateLinkTree]
  simp only [hlinks]
  rw [← hstart, harray, hmax, OpenHRP.jointIdToLinkArray, resize_of_le]
  omega

theorem isStaticModel_updateLinkTree :
    (r.updateLinkTree this t links memory).isStaticModel = true ↔
      (links t.root).link.jointType = .fixedJoint ∧
        (r.updateLinkTree this t links memory).jointIdToLinkArray.length = 0 := by
  simp only [BodyRecords.updateLinkTree, decide_eq_true_eq]

/-- **The indices are consistent** after `updateLinkTree`, whatever the joint IDs, provided that no
two links have the same one. -/
theorem updateLinkTree_indices (this : B) (t : LinkTree ι) (links : ι → ModelLink K)
    (memory : ℕ → ModelLink K) (r : BodyRecords ι K B)
    (hdistinct : ∀ i ∈ t.links, ∀ j ∈ t.links, 0 ≤ (links i).link.jointId →
      (links i).link.jointId = (links j).link.jointId → i = j) :
    Indexed t links (r.updateLinkTree this t links memory) := by
  have htraverse : (r.updateLinkTree this t links memory).linkTraverse.links = t.links :=
    links_find_root t
  have hjoints : (r.updateLinkTree this t links memory).jointIdToLinkArray =
      fillEmptyJoints memory (OpenHRP.jointIdToLinkArray t fun i ↦ (links i).link) :=
    joints_updateLinkTree
  have hlen : (r.updateLinkTree this t links memory).jointIdToLinkArray.length =
      numJoints t fun i ↦ (links i).link := by
    rw [hjoints, fillEmptyJoints, List.length_mapIdx]
    rfl
  have hslot := jointIdToLinkArray_getElem? (s := fun i ↦ (links i).link) hdistinct
  obtain ⟨hbound, hattained⟩ := numJoints_bounds (s := fun i ↦ (links i).link) hdistinct
  refine ⟨fun k i hk ↦ ?_, ?_, fun i ↦ ?_, fun i p hp ↦ ?_, ?_, ?_, fun k joint hk ↦ ?_,
    fun i hi hid ↦ ?_, ?_⟩
  · rw [htraverse] at hk
    obtain ⟨hlt, rfl⟩ := List.getElem?_eq_some_iff.1 hk
    rw [index_updateLinkTree (List.getElem_mem hlt), t.links_nodup.idxOf_getElem]
  · rw [htraverse]
    exact t.links_nodup
  · rw [htraverse]
  · obtain ⟨hpm, him⟩ := t.parent_mem hp
    rw [index_updateLinkTree hpm, index_updateLinkTree him]
    exact_mod_cast t.idxOf_parent_lt hp
  · rwa [hlen]
  · rwa [hlen]
  · -- a slot holds the link with its number, or the joint made for it
    rw [hjoints, getElem?_fillEmptyJoints, Option.map_eq_some_iff] at hk
    obtain ⟨slot, hget, rfl⟩ := hk
    rcases slot with _ | i
    · rfl
    · exact ((hslot k i).1 hget).2
  · rw [hjoints, getElem?_fillEmptyJoints,
      (hslot _ i).2 ⟨hi, (Int.toNat_of_nonneg hid).symm⟩]
    rfl
  · rw [isStaticModel_updateLinkTree, hlen]
    refine and_congr_right fun _ ↦ ⟨fun h i hi ↦ ?_, fun h ↦ ?_⟩
    · have hlt := hbound i hi
      omega
    · rcases hattained with h₀ | ⟨i, hi, hid⟩
      · exact h₀
      · have hneg := h i hi
        omega

/-- Blank links with the joint IDs given. -/
def linksWithIds (ids : ι → ℤ) (i : ι) : ModelLink ℚ :=
  ⟨{ Link.blank with jointId := ids i }, "", 1, false, 0, 1, 0, 0, 0, 0, 0, 0, 0, 0, [], []⟩

/-- A fixed root without ID and two joints below it, with the IDs 5 and 2. -/
theorem updateLinkTree_indices_gaps :
    Indexed (⟨0, .link 1 (.link 2 .null .null) .null, by decide⟩ : LinkTree (Fin 3))
      (linksWithIds ![-1, 5, 2])
      (BodyRecords.updateLinkTree () ⟨0, .link 1 (.link 2 .null .null) .null, by decide⟩
        (linksWithIds ![-1, 5, 2]) (linksWithIds fun _ ↦ 7)
        ⟨fun _ ↦ (), fun _ ↦ -1, ⟨[], 0⟩, fun _ ↦ none, [], 0, false⟩) :=
  updateLinkTree_indices _ _ _ _ _ (by decide)

end Numberings

end OpenHRP.ModelLoader
