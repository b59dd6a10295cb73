import Mathlib.Algebra.Order.Field.Basic
import OpenHRP.Foundations.GreedyCover
import OpenHRP.Model.Link

/-!
# Merging the contacts of a sphere

`detectSphereMeshCollisions` makes one contact of the touched triangles that lie in one plane. The
merging loop takes the triangles in order and collects those behind the present one whose plane is
the same by its test.

The test compares the normals by their distance, but the offsets by their difference with its sign,
so that a parallel face further along the normal is merged as well; and a triangle that has gone
into a contact is collected again by a later one. The loop groups coplanar triangles, each into one
contact, exactly when this does not happen (`groupsCoplanar_iff`). The triangles that open a contact
are a greedy cover of the list (`firsts`).
-/

open Matrix

namespace OpenHRP.SphereContacts

open GreedyCover

variable {K : Type*} {n : ℕ}

/-- `LOCAL_EPSILON`. -/
def LOCAL_EPSILON [Field K] : K :=
  1 / 10 ^ 4

/-- An `IceMaths::Plane`. -/
structure Plane (K : Type*) where
  n : Vector3 K
  d : K

/-- What is known of a touched triangle when the merging starts: its plane, the centroid and the
area of its intersection with the sphere, and the depth. -/
structure Touched (K : Type*) where
  face : Plane K
  q : Vector3 K
  A : K
  depth : K

/-- An entry of `new_q`, `new_n` and `new_depth`, with the triangles whose components went into
it. -/
structure Contact (n : ℕ) (K : Type*) where
  triangles : List (Fin n)
  q : Vector3 K
  n : Vector3 K
  depth : K

/-- What the merging loop changes. -/
structure Merging (n : ℕ) (K : Type*) where
  considered_checklist : Fin n → Bool
  contacts : List (Contact n K)

section Loop

variable [Field K] [LinearOrder K] [CMath K]

/-- The test of the inner loop. -/
def SamePlane (face_i face_j : Plane K) : Prop :=
  Vector3.norm (face_i.n - face_j.n) < LOCAL_EPSILON ∧ face_i.d - face_j.d < LOCAL_EPSILON

instance (face_i face_j : Plane K) : Decidable (SamePlane face_i face_j) :=
  inferInstanceAs (Decidable (_ ∧ _))

variable (touched : Fin n → Touched K)

/-- The body of the inner loop. -/
def sameplaneStep (i : Fin n) (sameplane : List (Fin n)) (j : Fin n) : List (Fin n) :=
  if SamePlane (touched i).face (touched j).face then
    (if sameplane = [] then [i] else sameplane) ++ [j]
  else sameplane

/-- The inner loop. -/
def sameplane (i : Fin n) : List (Fin n) :=
  ((List.finRange n).filter fun j ↦ i < j).foldl (sameplaneStep touched i) []

/-- The contact of a triangle that is alone in its plane. -/
def single (i : Fin n) : Contact n K :=
  ⟨[i], (touched i).q, (touched i).face.n, (touched i).depth⟩

/-- The contact of the triangles in `same`, which `i` has collected: its point is their average,
weighted by area. -/
def average (i : Fin n) (same : List (Fin n)) : Contact n K :=
  let sum := same.foldl (fun (sum : Vector3 K × K) k ↦
    (sum.1 + (touched k).A • (touched k).q, sum.2 + (touched k).A)) (0, 0)
  ⟨same, fun x ↦ sum.1 x / sum.2, (touched i).face.n, (touched i).depth⟩

/-- The body of the outer loop. -/
def mergeStep (s : Merging n K) (i : Fin n) : Merging n K :=
  if s.considered_checklist i then s
  else
    let same := sameplane touched i
    if same = [] then
      ⟨Function.update s.considered_checklist i true, s.contacts ++ [single touched i]⟩
    else
      ⟨same.foldl (fun considered k ↦ Function.update considered k true) s.considered_checklist,
        s.contacts ++ [average touched i same]⟩

/-- The merging loop. -/
def merge : Merging n K :=
  (List.finRange n).foldl (mergeStep touched) ⟨fun _ ↦ false, []⟩

/-- Every touched triangle is in one contact, and the triangles of a contact agree with its first
one in their normals and offsets. -/
structure GroupsCoplanar (contacts : List (Contact n K)) : Prop where
  perm : (contacts.flatMap Contact.triangles).Perm (List.finRange n)
  coplanar : ∀ c ∈ contacts, ∀ i rest, c.triangles = i :: rest → ∀ j ∈ rest,
    Vector3.norm ((touched i).face.n - (touched j).face.n) < LOCAL_EPSILON ∧
      |(touched i).face.d - (touched j).face.d| < LOCAL_EPSILON

/-! ### What the loop collects -/

/-- The triangle `i` collects `j`, when it opens a contact. -/
def Collects (i j : Fin n) : Prop :=
  i < j ∧ SamePlane (touched i).face (touched j).face

instance : DecidableRel (Collects touched) :=
  fun _ _ ↦ inferInstanceAs (Decidable (_ ∧ _))

/-- The triangles that open a contact: those that no earlier one of them collects. -/
def firsts : List (Fin n) :=
  select (Collects touched) (List.finRange n)

/-- The triangles of the contact that `i` opens. -/
def group (i : Fin n) : List (Fin n) :=
  i :: (List.finRange n).filter fun j ↦ Collects touched i j

variable {touched}

/-- The inner loop opens `sameplane` with `i` when it finds the first triangle. -/
theorem foldl_sameplaneStep (i : Fin n) (js : List (Fin n)) :
    js.foldl (sameplaneStep touched i) [] =
      if js.filter (fun j ↦ SamePlane (touched i).face (touched j).face) = [] then []
      else i :: js.filter fun j ↦ SamePlane (touched i).face (touched j).face := by
  induction js using List.reverseRecOn with
  | nil => rfl
  | append_singleton js j ih =>
    rw [List.foldl_append, ih, List.filter_append]
    generalize js.filter (fun j ↦ SamePlane (touched i).face (touched j).face) = found
    by_cases h : SamePlane (touched i).face (touched j).face
    · cases found <;> simp [sameplaneStep, h]
    · simp [sameplaneStep, h]

theorem sameplane_eq (i : Fin n) :
    sameplane touched i =
      if (List.finRange n).filter (fun j ↦ Collects touched i j) = [] then []
      else group touched i := by
  have hfilter : ((List.finRange n).filter fun j ↦ i < j).filter
        (fun j ↦ SamePlane (touched i).face (touched j).face) =
      (List.finRange n).filter fun j ↦ Collects touched i j := by
    rw [List.filter_filter]
    refine List.filter_congr fun j _ ↦ ?_
    rw [Bool.eq_iff_iff, Bool.and_eq_true, decide_eq_true_eq, decide_eq_true_eq,
      decide_eq_true_eq]
    exact and_comm
  rw [sameplane, foldl_sameplaneStep, hfilter]
  rfl

theorem foldl_update (ks : List (Fin n)) (considered : Fin n → Bool) (j : Fin n) :
    ks.foldl (fun considered k ↦ Function.update considered k true) considered j = true ↔
      considered j = true ∨ j ∈ ks := by
  induction ks generalizing considered with
  | nil => simp
  | cons k ks ih =>
    rw [List.foldl_cons, ih, List.mem_cons]
    by_cases h : j = k
    · subst h
      simp
    · simp [h]

/-- A triangle that is not checked off opens a contact for its group. -/
theorem mergeStep_of_not_considered {s : Merging n K} {i : Fin n}
    (h : ¬s.considered_checklist i = true) :
    (mergeStep touched s i).contacts.map Contact.triangles =
        s.contacts.map Contact.triangles ++ [group touched i] ∧
      ∀ j, (mergeStep touched s i).considered_checklist j = true ↔
        s.considered_checklist j = true ∨ j ∈ group touched i := by
  rw [mergeStep, if_neg h]
  by_cases halone : (List.finRange n).filter (fun j ↦ Collects touched i j) = []
  · have hsame : sameplane touched i = [] := by rw [sameplane_eq, if_pos halone]
    have hgroup : group touched i = [i] := by rw [group, halone]
    rw [if_pos hsame, hgroup]
    refine ⟨by simp [single], fun j ↦ ?_⟩
    exact foldl_update [i] s.considered_checklist j
  · have hsame : sameplane touched i = group touched i := by rw [sameplane_eq, if_neg halone]
    have hne : group touched i ≠ [] := List.cons_ne_nil _ _
    rw [hsame]
    dsimp only
    rw [if_neg hne]
    exact ⟨by simp [average], foldl_update _ _⟩

/-- After any first part of the triangles, the contacts are the groups of the selected ones, and
what is checked off is in them. -/
theorem foldl_mergeStep (is : List (Fin n)) (his : is.Nodup) :
    let s := is.foldl (mergeStep touched) ⟨fun _ ↦ false, []⟩
    s.contacts.map Contact.triangles = (select (Collects touched) is).map (group touched) ∧
      ∀ j, s.considered_checklist j = true ↔
        ∃ i ∈ select (Collects touched) is, j ∈ group touched i := by
  induction is using List.reverseRecOn with
  | nil => simp
  | append_singleton is i ih =>
    obtain ⟨his, -, hnot⟩ := List.nodup_append.1 his
    obtain ⟨hcontacts, hconsidered⟩ := ih his
    have hi : i ∉ select (Collects touched) is := fun hmem ↦
      hnot i ((select_sublist is).subset hmem) i (List.mem_singleton_self i) rfl
    have hiff : (is.foldl (mergeStep touched) ⟨fun _ ↦ false, []⟩).considered_checklist i = true ↔
        ∃ k ∈ select (Collects touched) is, Collects touched k i := by
      rw [hconsidered]
      refine exists_congr fun k ↦ and_congr_right fun hk ↦ ?_
      rw [group, List.mem_cons, List.mem_filter]
      simp [ne_of_mem_of_not_mem hk hi |>.symm]
    dsimp only
    rw [List.foldl_append, select_append]
    by_cases h : ∃ k ∈ select (Collects touched) is, Collects touched k i
    · rw [keep_of_near h, List.foldl_cons, List.foldl_nil, mergeStep, if_pos (hiff.2 h)]
      exact ⟨hcontacts, hconsidered⟩
    · obtain ⟨hstep, hchecked⟩ := mergeStep_of_not_considered (fun hc ↦ h (hiff.1 hc))
      rw [keep_of_not_near h, List.foldl_cons, List.foldl_nil, hstep, hcontacts, List.map_append]
      refine ⟨rfl, fun j ↦ ?_⟩
      rw [hchecked, hconsidered]
      simp [or_and_right, exists_or]

/-- The contacts are the groups of the triangles that open one. -/
theorem triangles_merge :
    (merge touched).contacts.map Contact.triangles = (firsts touched).map (group touched) :=
  (foldl_mergeStep _ (List.nodup_finRange n)).1

/-! ### When the groups are right -/

theorem mem_group {i j : Fin n} : j ∈ group touched i ↔ j = i ∨ Collects touched i j := by
  simp [group]

theorem nodup_group (i : Fin n) : (group touched i).Nodup := by
  refine List.nodup_cons.2 ⟨fun h ↦ ?_, (List.nodup_finRange n).filter _⟩
  have := (List.mem_filter.1 h).2
  exact absurd (of_decide_eq_true this).1 (lt_irrefl i)

theorem not_collects_of_mem_firsts {i j : Fin n} (hi : i ∈ firsts touched)
    (hj : j ∈ firsts touched) : ¬Collects touched i j := fun h ↦
  not_near_of_lt (List.pairwise_lt_finRange n) hi hj h.1 h

theorem nodup_firsts : (firsts touched).Nodup :=
  (List.nodup_finRange n).sublist (select_sublist _)

theorem exists_mem_group (j : Fin n) : ∃ i ∈ firsts touched, j ∈ group touched i := by
  have hcover : j ∈ firsts touched ∨ ∃ i ∈ firsts touched, Collects touched i j :=
    mem_select_or_near (List.mem_finRange j)
  obtain h | ⟨i, hi, h⟩ := hcover
  · exact ⟨j, h, mem_group.2 (.inl rfl)⟩
  · exact ⟨i, hi, mem_group.2 (.inr h)⟩

/-- The groups are a partition when no triangle is collected twice. -/
theorem perm_iff :
    ((firsts touched).flatMap (group touched)).Perm (List.finRange n) ↔
      ∀ i ∈ firsts touched, ∀ k ∈ firsts touched, ∀ j,
        Collects touched i j → Collects touched k j → i = k := by
  constructor
  · intro h i hi k hk j hij hkj
    by_contra hne
    have hnodup := h.nodup_iff.2 (List.nodup_finRange n)
    have hdisjoint := (List.nodup_flatMap.1 hnodup).2
    have : Std.Symm (Function.onFun List.Disjoint (group touched)) :=
      ⟨fun _ _ h ↦ List.Disjoint.symm h⟩
    exact hdisjoint.forall hi hk hne (mem_group.2 (.inr hij)) (mem_group.2 (.inr hkj))
  · intro h
    refine (List.perm_ext_iff_of_nodup ?_ (List.nodup_finRange n)).2 fun j ↦ ?_
    · refine List.nodup_flatMap.2 ⟨fun i _ ↦ nodup_group i, ?_⟩
      refine nodup_firsts.imp_of_mem fun {i k} hi hk hne j hij hkj ↦ ?_
      rcases mem_group.1 hij with rfl | hij
      · rcases mem_group.1 hkj with rfl | hkj
        · exact hne rfl
        · exact not_collects_of_mem_firsts hk hi hkj
      · rcases mem_group.1 hkj with rfl | hkj
        · exact not_collects_of_mem_firsts hi hk hij
        · exact hne (h i hi k hk j hij hkj)
    · rw [List.mem_flatMap]
      exact ⟨fun _ ↦ List.mem_finRange j, fun _ ↦ exists_mem_group j⟩

/-- The loop puts every touched triangle into one contact, and triangles into one contact only if
their planes agree, exactly when no triangle is collected by two of those that open a contact, and
none whose offset is greater by `LOCAL_EPSILON` or more. -/
theorem groupsCoplanar_iff [IsStrictOrderedRing K] (touched : Fin n → Touched K) :
    GroupsCoplanar touched (merge touched).contacts ↔
      (∀ i ∈ firsts touched, ∀ k ∈ firsts touched, ∀ j,
        Collects touched i j → Collects touched k j → i = k) ∧
      ∀ i ∈ firsts touched, ∀ j, Collects touched i j →
        (touched j).face.d - (touched i).face.d < LOCAL_EPSILON := by
  have hflat : (merge touched).contacts.flatMap Contact.triangles =
      (firsts touched).flatMap (group touched) := by
    rw [List.flatMap_def, triangles_merge, ← List.flatMap_def]
  have hmem (ts : List (Fin n)) : (∃ c ∈ (merge touched).contacts, c.triangles = ts) ↔
      ∃ i ∈ firsts touched, group touched i = ts := by
    rw [← List.mem_map, triangles_merge, List.mem_map]
  constructor
  · intro h
    refine ⟨perm_iff.1 (hflat ▸ h.perm), fun i hi j hij ↦ ?_⟩
    obtain ⟨c, hc, hgroup⟩ := (hmem _).2 ⟨i, hi, rfl⟩
    have hj : j ∈ (List.finRange n).filter fun j ↦ Collects touched i j := by simpa using hij
    have habs := (h.coplanar c hc i _ hgroup j hj).2
    rw [← neg_sub]
    exact (neg_le_abs _).trans_lt habs
  · rintro ⟨hunique, hoffset⟩
    refine ⟨hflat ▸ perm_iff.2 hunique, fun c hc i rest hgroup j hj ↦ ?_⟩
    obtain ⟨k, hk, heq⟩ := (hmem _).1 ⟨c, hc, hgroup⟩
    obtain ⟨rfl, rfl⟩ := List.cons.inj heq
    have hkj : Collects touched k j := of_decide_eq_true (List.mem_filter.1 hj).2
    refine ⟨hkj.2.1, abs_lt.2 ⟨?_, hkj.2.2⟩⟩
    have := hoffset k hk j hkj
    rwa [neg_lt, neg_sub]

end Loop

/-! ### Example -/

/-- A touched triangle in a horizontal plane at the given height. -/
def horizontal (height : ℚ) : Touched ℚ :=
  ⟨⟨![0, 0, 1], -height⟩, ![0, 0, height], 1, 1⟩

/-- Two triangles of one plane become one contact, and a higher one becomes a contact of its own. -/
theorem groupsCoplanar_floor :
    GroupsCoplanar ![horizontal 0, horizontal 0, horizontal 1]
      (merge ![horizontal 0, horizontal 0, horizontal 1]).contacts :=
  (groupsCoplanar_iff _).2 (by decide +kernel)

/-- Of two parallel triangles the first, which is higher, collects the second. -/
theorem not_groupsCoplanar_steps :
    ¬GroupsCoplanar ![horizontal 1, horizontal 0]
      (merge ![horizontal 1, horizontal 0]).contacts := by
  intro h
  have hmem : [0, 1] ∈ (merge ![horizontal 1, horizontal 0]).contacts.map Contact.triangles := by
    decide +kernel
  obtain ⟨c, hc, hgroup⟩ := List.mem_map.1 hmem
  have hoffset := (h.coplanar c hc 0 [1] hgroup 1 (List.mem_singleton_self 1)).2
  exact absurd hoffset (by decide +kernel)

end OpenHRP.SphereContacts
