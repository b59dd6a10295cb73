import OpenHRP.Model.Link

/-!
# Bodies

A `Body` adds to its links an array of the joints, indexed by joint ID, and the total mass.
`updateLinkTree` fills the array from the links of the tree; an ID that no link has gets an empty
joint, a link outside the tree. When the joint IDs are exactly the indices of the array
(`JointsNumbered`), a sum over the array is a sum over the links with an ID.
-/

open Matrix

namespace OpenHRP

variable {ι K M : Type*}

/-- The part of the loop of `updateLinkTree` that enters a link into the array: the array, and the
largest ID so far. -/
def registerJoint (s : Store ι K) (r : List (Option ι) × ℤ) (link : ι) : List (Option ι) × ℤ :=
  let id := (s link).jointId
  if 0 ≤ id then
    let array := r.1 ++ List.replicate (id.toNat + 1 - r.1.length) none
    (array.set id.toNat (some link), max r.2 id)
  else r

/-- `jointIdToLinkArray` as `updateLinkTree` leaves it; `none` is an empty joint. -/
def jointIdToLinkArray (t : LinkTree ι) (s : Store ι K) : List (Option ι) :=
  let r := t.links.foldl (registerJoint s) (List.replicate t.links.length none, -1)
  r.1.take (r.2 + 1).toNat

/-- `Body::numJoints`. -/
def numJoints (t : LinkTree ι) (s : Store ι K) : ℕ :=
  (jointIdToLinkArray t s).length

/-- `Body::joint`; `none` is an empty joint. -/
def joint (t : LinkTree ι) (s : Store ι K) (id : Fin (numJoints t s)) : Option ι :=
  (jointIdToLinkArray t s)[id]

/-- No two links have the same joint ID, and every ID up to the largest is used. -/
structure JointsNumbered (t : LinkTree ι) (s : Store ι K) : Prop where
  distinct : ∀ i ∈ t.links, ∀ j ∈ t.links, 0 ≤ (s i).jointId → (s i).jointId = (s j).jointId → i = j
  used : ∀ id : Fin (numJoints t s), ∃ i ∈ t.links, (s i).jointId = id

/-- What the loop of `updateLinkTree` has entered after the links `l`. -/
structure Registered (s : Store ι K) (l : List ι) (r : List (Option ι) × ℤ) : Prop where
  getElem?_iff : ∀ (k : ℕ) (i : ι), r.1[k]? = some (some i) ↔ i ∈ l ∧ (s i).jointId = k
  le_max : ∀ i ∈ l, (s i).jointId ≤ r.2
  lt_length : r.2 < r.1.length
  neg_one_le : -1 ≤ r.2

theorem registered_registerJoint {s : Store ι K} {l : List ι} {r : List (Option ι) × ℤ} {link : ι}
    (h : Registered s l r)
    (hnew : ∀ i ∈ l, 0 ≤ (s link).jointId → (s link).jointId ≠ (s i).jointId) :
    Registered s (l ++ [link]) (registerJoint s r link) := by
  have hlt := h.lt_length
  have hmin := h.neg_one_le
  rw [registerJoint]
  split_ifs with hid
  · set n := (s link).jointId.toNat with hn
    have hnid : (s link).jointId = n := (Int.toNat_of_nonneg hid).symm
    refine ⟨fun k i ↦ ?_, fun i hi ↦ ?_, ?_, hmin.trans (le_max_left _ _)⟩
    · -- the new slot holds the link, every other slot what it held
      rw [List.getElem?_set]
      split_ifs with hk hlen
      · subst hk
        rw [Option.some_inj, Option.some_inj]
        constructor
        · rintro rfl
          exact ⟨by simp, hnid⟩
        · rintro ⟨hi, hik⟩
          rcases List.mem_append.1 hi with hi | hi
          · exact absurd (hnid.trans hik.symm) (hnew i hi hid)
          · exact (List.mem_singleton.1 hi).symm
      · simp only [List.length_append, List.length_replicate, not_lt] at hlen
        omega
      · have hold : (r.1 ++ List.replicate (n + 1 - r.1.length) none)[k]? = some (some i) ↔
            r.1[k]? = some (some i) := by
          rw [List.getElem?_append]
          split_ifs with hkr
          · rfl
          · rw [List.getElem?_replicate, List.getElem?_eq_none (by omega)]
            split_ifs <;> simp
        rw [hold, h.getElem?_iff, List.mem_append, List.mem_singleton]
        refine ⟨fun hi ↦ ⟨.inl hi.1, hi.2⟩, fun ⟨hi, hik⟩ ↦ ⟨hi.resolve_right ?_, hik⟩⟩
        rintro rfl
        omega
    · rcases List.mem_append.1 hi with hi | hi
      · exact (h.le_max i hi).trans (le_max_left _ _)
      · rw [List.mem_singleton.1 hi]
        exact le_max_right _ _
    · show max r.2 (s link).jointId < _
      rw [List.length_set, List.length_append, List.length_replicate]
      omega
  · refine ⟨fun k i ↦ ?_, fun i hi ↦ ?_, hlt, hmin⟩
    · rw [h.getElem?_iff, List.mem_append, List.mem_singleton]
      refine ⟨fun hi ↦ ⟨.inl hi.1, hi.2⟩, fun ⟨hi, hik⟩ ↦ ⟨hi.resolve_right ?_, hik⟩⟩
      rintro rfl
      omega
    · rcases List.mem_append.1 hi with hi | hi
      · exact h.le_max i hi
      · rw [List.mem_singleton.1 hi]
        omega

theorem registered_foldl {s : Store ι K} {l l' : List ι} {r : List (Option ι) × ℤ}
    (h : Registered s l r) (hnd : (l ++ l').Nodup)
    (hdistinct : ∀ i ∈ l ++ l', ∀ j ∈ l ++ l', 0 ≤ (s i).jointId →
      (s i).jointId = (s j).jointId → i = j) :
    Registered s (l ++ l') (l'.foldl (registerJoint s) r) := by
  induction l' generalizing l r with
  | nil => simpa using h
  | cons link l' ih =>
    have hassoc : l ++ link :: l' = l ++ [link] ++ l' := by simp
    rw [hassoc] at hnd hdistinct ⊢
    refine ih (registered_registerJoint h fun i hi hid hne ↦ ?_) hnd hdistinct
    obtain rfl : link = i := hdistinct link (by simp) i (by simp [hi]) hid hne
    exact (List.nodup_append.1 (List.nodup_append.1 hnd).1).2.2 link hi link (by simp) rfl

variable {t : LinkTree ι} {s : Store ι K}

/-- With distinct joint IDs, a slot holds the link with its ID. -/
theorem jointIdToLinkArray_getElem?
    (hdistinct : ∀ i ∈ t.links, ∀ j ∈ t.links, 0 ≤ (s i).jointId →
      (s i).jointId = (s j).jointId → i = j) (k : ℕ) (i : ι) :
    (jointIdToLinkArray t s)[k]? = some (some i) ↔ i ∈ t.links ∧ (s i).jointId = k := by
  have hempty : Registered s [] (List.replicate t.links.length none, -1) := by
    refine ⟨fun k i ↦ ?_, by simp, ?_, le_rfl⟩
    · rw [List.getElem?_replicate]
      split_ifs <;> simp
    · rw [List.length_replicate]
      omega
  have h : Registered s t.links (t.links.foldl (registerJoint s) _) :=
    registered_foldl (l := []) hempty t.links_nodup hdistinct
  rw [jointIdToLinkArray, List.getElem?_take]
  split_ifs with hk
  · exact h.getElem?_iff k i
  · refine iff_of_false (by simp) fun ⟨hi, hik⟩ ↦ ?_
    have hle := h.le_max i hi
    omega

theorem JointsNumbered.joint_eq (h : JointsNumbered t s) {id : Fin (numJoints t s)} {i : ι}
    (hi : i ∈ t.links) (hid : (s i).jointId = id) : joint t s id = some i := by
  have hget := (jointIdToLinkArray_getElem? h.distinct id i).2 ⟨hi, hid⟩
  exact (List.getElem?_eq_some_iff.1 hget).2

/-- The array lists the links with a joint ID. -/
theorem JointsNumbered.perm (h : JointsNumbered t s) :
    (jointIdToLinkArray t s).Perm ((t.links.filter fun i ↦ 0 ≤ (s i).jointId).map some) := by
  refine (List.perm_ext_iff_of_nodup ?_ ?_).2 fun o ↦ ?_
  · refine List.nodup_iff_injective_get.2 fun k m hkm ↦ ?_
    obtain ⟨i, hi, hik⟩ := h.used k
    have hm : (jointIdToLinkArray t s)[(m : ℕ)]? = some (some i) := by
      rw [List.getElem?_eq_getElem m.2]
      exact congrArg some (hkm.symm.trans (h.joint_eq hi hik))
    have him := ((jointIdToLinkArray_getElem? h.distinct m i).1 hm).2
    exact Fin.ext (by omega)
  · exact (t.links_nodup.filter _).map (Option.some_injective ι)
  · rw [List.mem_map]
    constructor
    · intro ho
      obtain ⟨k, hk, rfl⟩ := List.getElem_of_mem ho
      obtain ⟨i, hi, hik⟩ := h.used ⟨k, hk⟩
      have hlink : joint t s ⟨k, hk⟩ = some i := h.joint_eq hi hik
      exact ⟨i, List.mem_filter.2 ⟨hi, by simp [hik]⟩, hlink.symm⟩
    · rintro ⟨i, hi, rfl⟩
      obtain ⟨hi, hid⟩ := List.mem_filter.1 hi
      have hid : 0 ≤ (s i).jointId := by simpa using hid
      exact List.mem_of_getElem? ((jointIdToLinkArray_getElem? h.distinct (s i).jointId.toNat i).2
        ⟨hi, (Int.toNat_of_nonneg hid).symm⟩)

/-- A sum over the joints is a sum over the links with a joint ID. -/
theorem JointsNumbered.sum_joint [AddCommMonoid M] (h : JointsNumbered t s) (f : ι → M) :
    ∑ id, (joint t s id).elim 0 f =
      (t.links.map fun i ↦ if 0 ≤ (s i).jointId then f i else 0).sum := by
  have hfilter : ∀ l : List ι, ((l.filter fun i ↦ 0 ≤ (s i).jointId).map f).sum =
      (l.map fun i ↦ if 0 ≤ (s i).jointId then f i else 0).sum := by
    intro l
    induction l with
    | nil => rfl
    | cons i l ih =>
      by_cases hi : 0 ≤ (s i).jointId
      · rw [List.filter_cons_of_pos (by simpa using hi), List.map_cons, List.sum_cons, ih,
          List.map_cons, List.sum_cons, if_pos hi]
      · rw [List.filter_cons_of_neg (by simpa using hi), ih, List.map_cons, List.sum_cons,
          if_neg hi, zero_add]
  calc ∑ id, (joint t s id).elim 0 f
      = ((jointIdToLinkArray t s).map fun o ↦ o.elim 0 f).sum :=
        (Fin.sum_univ_fun_getElem (jointIdToLinkArray t s) fun o ↦ o.elim 0 f)
    _ = (((t.links.filter fun i ↦ 0 ≤ (s i).jointId).map some).map fun o ↦ o.elim 0 f).sum :=
        (h.perm.map _).sum_eq
    _ = _ := by
        rw [List.map_map, ← hfilter]
        rfl

/-- A joint with a degree of freedom of its own. -/
def IsMoving (link : Link K) : Prop :=
  link.jointType = .rotationalJoint ∨ link.jointType = .slideJoint

instance (link : Link K) : Decidable (IsMoving link) :=
  inferInstanceAs (Decidable (_ ∨ _))

/-- The joint IDs are those of the moving joints, numbered from zero without gaps. -/
structure Actuated (t : LinkTree ι) (s : Store ι K) : Prop extends JointsNumbered t s where
  jointId_nonneg_iff : ∀ i ∈ t.links, 0 ≤ (s i).jointId ↔ i ≠ t.root ∧ IsMoving (s i)

theorem Actuated.of_joint (h : Actuated t s) {id : Fin (numJoints t s)} {i : ι}
    (hi : joint t s id = some i) : i ∈ t.child.links ∧ IsMoving (s i) := by
  have hget : (jointIdToLinkArray t s)[(id : ℕ)]? = some (some i) := by
    rw [List.getElem?_eq_getElem id.2]
    exact congrArg some hi
  obtain ⟨hmem, hid⟩ := (jointIdToLinkArray_getElem? h.distinct id i).1 hget
  obtain ⟨hne, hmoving⟩ := (h.jointId_nonneg_iff i hmem).1 (by omega)
  exact ⟨(List.mem_cons.1 hmem).resolve_left hne, hmoving⟩

/-- A sum over the joints is a sum over the links below the root that can move. -/
theorem Actuated.sum_joint [AddCommMonoid M] (h : Actuated t s) (f : ι → M) :
    ∑ id, (joint t s id).elim 0 f =
      (t.child.links.map fun i ↦ if IsMoving (s i) then f i else 0).sum := by
  have hroot : ¬0 ≤ (s t.root).jointId := fun h₀ ↦
    ((h.jointId_nonneg_iff t.root t.root_mem).1 h₀).1 rfl
  rw [h.toJointsNumbered.sum_joint, LinkTree.links, List.map_cons, List.sum_cons, if_neg hroot,
    zero_add]
  refine congrArg List.sum (List.map_congr_left fun i hi ↦ ?_)
  have hne : i ≠ t.root := fun e ↦ t.root_notMem_child (e ▸ hi)
  have hiff : 0 ≤ (s i).jointId ↔ IsMoving (s i) :=
    (h.jointId_nonneg_iff i (List.mem_cons_of_mem _ hi)).trans (and_iff_right hne)
  simp only [hiff]

end OpenHRP
