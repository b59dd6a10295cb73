import OpenHRP.Foundations.Sweep
import Mathlib.Algebra.Algebra.Basic
import Mathlib.Algebra.BigOperators.GroupWithZero.Action
import Mathlib.LinearAlgebra.BilinearMap
import Mathlib.Tactic.Abel

/-!
# Link trees

The links of a body form a tree held together by three pointers of `Link`: `parent`, `child` (the
first child) and `sibling` (the next child of the same parent). `LinkPtr ι` is a `Link*` with what
`child` and `sibling` reach from it, `null` included; the recursions of the source over these two
pointers are structural recursions over `LinkPtr`. `LinkTree ι` is a root link with its children,
no link occurring twice; its `parent` pointers are read off the shape.

The data of the links is kept apart from the shape: a store `ι → Link K` gives the fields of every
link, and the operations on a body rewrite stores over a fixed tree.
-/

namespace OpenHRP

variable {ι M : Type*}

/-- A `Link*` together with the links its `child` and `sibling` pointers lead to. -/
inductive LinkPtr (ι : Type*) where
  | null : LinkPtr ι
  | link (self : ι) (child sibling : LinkPtr ι) : LinkPtr ι
  deriving DecidableEq, Repr

namespace LinkPtr

/-- The links reached from a pointer: the link, then everything below it, then its siblings with
everything below them. -/
def links : LinkPtr ι → List ι
  | null => []
  | link i c s => i :: (c.links ++ s.links)

/-- The links of a sibling chain alone: `for(l = child; l; l = l->sibling)`. -/
def siblings : LinkPtr ι → List ι
  | null => []
  | link i _ s => i :: s.siblings

/-- `q` is the parent of `i`, for a sibling chain whose links have the parent `p`. -/
def Joins (p : ι) : LinkPtr ι → ι → ι → Prop
  | null, _, _ => False
  | link l c s, q, i => (q = p ∧ i = l) ∨ c.Joins l q i ∨ s.Joins p q i

/-- The sum of `g` over the links reached from a pointer. -/
def sum [AddCommMonoid M] (g : ι → M) : LinkPtr ι → M
  | null => 0
  | link i c s => g i + c.sum g + s.sum g

/-- The same pointers between other links. -/
def map {κ : Type*} (f : ι → κ) : LinkPtr ι → LinkPtr κ
  | null => null
  | link i c s => link (f i) (c.map f) (s.map f)

@[simp] theorem links_null : (null : LinkPtr ι).links = [] := rfl

@[simp] theorem links_link (i : ι) (c s : LinkPtr ι) :
    (link i c s).links = i :: (c.links ++ s.links) := rfl

@[simp] theorem siblings_null : (null : LinkPtr ι).siblings = [] := rfl

@[simp] theorem siblings_link (i : ι) (c s : LinkPtr ι) :
    (link i c s).siblings = i :: s.siblings := rfl

theorem links_map {κ : Type*} (f : ι → κ) (ptr : LinkPtr ι) :
    (ptr.map f).links = ptr.links.map f := by
  induction ptr with
  | null => rfl
  | link i c s ihc ihs => simp only [map, links_link, ihc, ihs, List.map_cons, List.map_append]

variable {ptr : LinkPtr ι}

theorem map_congr {κ : Type*} {f g : ι → κ} (h : ∀ i ∈ ptr.links, f i = g i) :
    ptr.map f = ptr.map g := by
  induction ptr with
  | null => rfl
  | link i c s ihc ihs =>
    rw [map, map, h i List.mem_cons_self,
      ihc fun j hj ↦ h j (List.mem_cons_of_mem _ (List.mem_append_left _ hj)),
      ihs fun j hj ↦ h j (List.mem_cons_of_mem _ (List.mem_append_right _ hj))]

theorem sum_eq_sum_links [AddCommMonoid M] (g : ι → M) (ptr : LinkPtr ι) :
    ptr.sum g = (ptr.links.map g).sum := by
  induction ptr with
  | null => rfl
  | link i c s ihc ihs => simp [sum, ihc, ihs, add_assoc]

theorem siblings_subset (ptr : LinkPtr ι) : ptr.siblings ⊆ ptr.links := by
  induction ptr with
  | null => simp
  | link i c s _ ihs =>
    intro j hj
    rcases List.mem_cons.1 hj with rfl | hj
    · simp
    · simp [ihs hj]

variable {p q i : ι}

theorem Joins.mem (h : ptr.Joins p q i) : q ∈ p :: ptr.links ∧ i ∈ ptr.links := by
  induction ptr generalizing p with
  | null => exact h.elim
  | link l c s ihc ihs =>
    rcases h with ⟨rfl, rfl⟩ | h | h
    · simp
    · obtain ⟨hq, hi⟩ := ihc h
      simp only [List.mem_cons] at hq
      exact ⟨by simp only [links_link, List.mem_cons, List.mem_append]; tauto, by simp [hi]⟩
    · obtain ⟨hq, hi⟩ := ihs h
      simp only [List.mem_cons] at hq
      exact ⟨by simp only [links_link, List.mem_cons, List.mem_append]; tauto, by simp [hi]⟩

/-- Every link reached from a pointer has a parent: the one given, or another reached link. -/
theorem exists_joins (p : ι) (h : i ∈ ptr.links) : ∃ q, ptr.Joins p q i := by
  induction ptr generalizing p with
  | null => simp at h
  | link l c s ihc ihs =>
    simp only [links_link, List.mem_cons, List.mem_append] at h
    rcases h with rfl | h | h
    · exact ⟨p, .inl ⟨rfl, rfl⟩⟩
    · obtain ⟨q, hq⟩ := ihc l h
      exact ⟨q, .inr (.inl hq)⟩
    · obtain ⟨q, hq⟩ := ihs p h
      exact ⟨q, .inr (.inr hq)⟩

/-- Parents precede their children. -/
theorem Joins.before (h : ptr.Joins p q i) : Before (p :: ptr.links) q i := by
  induction ptr generalizing p with
  | null => exact h.elim
  | link l c s ihc ihs =>
    rcases h with ⟨rfl, rfl⟩ | h | h
    · exact before_cons_of_mem (by simp)
    · exact (ihc h).mono ((List.sublist_append_left _ _).cons_cons l |>.cons p)
    · exact (ihs h).mono (((List.sublist_append_right _ _).cons l).cons_cons p)

theorem Joins.unique {p q q' i : ι} (hnd : ptr.links.Nodup) (h : ptr.Joins p q i)
    (h' : ptr.Joins p q' i) : q = q' := by
  induction ptr generalizing p with
  | null => exact h.elim
  | link l c s ihc ihs =>
    simp only [links_link, List.nodup_cons, List.mem_append, not_or, List.nodup_append] at hnd
    obtain ⟨⟨hlc, hls⟩, hc, hs, hcs⟩ := hnd
    rcases h with ⟨rfl, rfl⟩ | h | h <;> rcases h' with ⟨rfl, h'⟩ | h' | h'
    · rfl
    · exact absurd h'.mem.2 hlc
    · exact absurd h'.mem.2 hls
    · exact absurd (h' ▸ h.mem.2) hlc
    · exact ihc hc h h'
    · exact absurd rfl (hcs i h.mem.2 i h'.mem.2)
    · exact absurd (h' ▸ h.mem.2) hls
    · exact absurd rfl (hcs i h'.mem.2 i h.mem.2)
    · exact ihs hs h h'

variable [DecidableEq ι]

/-- The `parent` pointer of `i`, for a sibling chain whose links have the parent `p`. -/
def parentIn (p : ι) : LinkPtr ι → ι → Option ι
  | null, _ => none
  | link l c s, i => if i = l then some p else (c.parentIn l i).or (s.parentIn p i)

/-- The `child` pointer of the link `i`. -/
def childOf : LinkPtr ι → ι → LinkPtr ι
  | null, _ => null
  | link l c s, i => if i = l then c else if i ∈ c.links then c.childOf i else s.childOf i

theorem joins_of_parentIn (h : ptr.parentIn p i = some q) : ptr.Joins p q i := by
  induction ptr generalizing p with
  | null => simp [parentIn] at h
  | link l c s ihc ihs =>
    by_cases hil : i = l
    · rw [parentIn, if_pos hil, Option.some_inj] at h
      exact .inl ⟨h.symm, hil⟩
    · rw [parentIn, if_neg hil, Option.or_eq_some_iff] at h
      rcases h with h | ⟨-, h⟩
      · exact .inr (.inl (ihc h))
      · exact .inr (.inr (ihs h))

theorem parentIn_ne_none (p : ι) (h : i ∈ ptr.links) : ptr.parentIn p i ≠ none := by
  induction ptr generalizing p with
  | null => simp at h
  | link l c s ihc ihs =>
    simp only [links_link, List.mem_cons, List.mem_append] at h
    rw [parentIn]
    split_ifs with hil
    · simp
    · rw [ne_eq, Option.or_eq_none_iff, not_and_or]
      exact (h.resolve_left hil).imp (ihc l) (ihs p)

theorem parentIn_eq_some_iff (hnd : ptr.links.Nodup) :
    ptr.parentIn p i = some q ↔ ptr.Joins p q i := by
  refine ⟨joins_of_parentIn, fun h ↦ ?_⟩
  obtain ⟨q', hq'⟩ := Option.ne_none_iff_exists'.1 (parentIn_ne_none p h.mem.2)
  rw [hq', h.unique hnd (joins_of_parentIn hq')]

theorem childOf_of_notMem (h : i ∉ ptr.links) : ptr.childOf i = null := by
  induction ptr with
  | null => rfl
  | link l c s _ ihs =>
    simp only [links_link, List.mem_cons, List.mem_append, not_or] at h
    rw [childOf, if_neg h.1, if_neg h.2.1, ihs h.2.2]

/-- The links of the `child` chain of `q` are the links whose parent is `q`. -/
theorem joins_iff (hp : p ∉ ptr.links) (hnd : ptr.links.Nodup) :
    ptr.Joins p q i ↔ (q = p ∧ i ∈ ptr.siblings) ∨ i ∈ (ptr.childOf q).siblings := by
  induction ptr generalizing p with
  | null => simp [Joins, childOf]
  | link l c s ihc ihs =>
    simp only [links_link, List.nodup_cons, List.mem_append, not_or, List.nodup_append] at hnd
    obtain ⟨⟨hlc, hls⟩, hc, hs, hcs⟩ := hnd
    simp only [links_link, List.mem_cons, List.mem_append, not_or] at hp
    rw [Joins, ihc hlc hc, ihs hp.2.2 hs, siblings_link, List.mem_cons, childOf]
    by_cases hql : q = l
    · subst hql
      have hqp : q ≠ p := fun h ↦ hp.1 h.symm
      simp [hqp, childOf_of_notMem hlc, childOf_of_notMem hls]
    · by_cases hqc : q ∈ c.links
      · have hqs : q ∉ s.links := fun h ↦ hcs q hqc q h rfl
        have hqp : q ≠ p := fun h ↦ hp.2.1 (h ▸ hqc)
        simp [hql, hqc, hqp, childOf_of_notMem hqs]
      · simp [hql, hqc, childOf_of_notMem hqc]
        tauto

/-- `q` is one of the pointers met on the way through the tree below a pointer. -/
def Meets : LinkPtr ι → LinkPtr ι → Prop
  | null, q => q = null
  | link l c s, q => q = link l c s ∨ c.Meets q ∨ s.Meets q

omit [DecidableEq ι] in
theorem meets_self (ptr : LinkPtr ι) : ptr.Meets ptr := by
  cases ptr <;> simp [Meets]

variable {c s ptr : LinkPtr ι}

section

omit [DecidableEq ι]

theorem Meets.below {l : ι} (h : ptr.Meets (link l c s)) : ptr.Meets c ∧ ptr.Meets s := by
  induction ptr with
  | null => simp [Meets] at h
  | link l' c' s' ihc ihs =>
    rcases h with h | h | h
    · obtain ⟨-, rfl, rfl⟩ := LinkPtr.link.inj h
      exact ⟨.inr (.inl (meets_self _)), .inr (.inr (meets_self _))⟩
    · exact ⟨.inr (.inl (ihc h).1), .inr (.inl (ihc h).2)⟩
    · exact ⟨.inr (.inr (ihs h).1), .inr (.inr (ihs h).2)⟩

theorem Meets.mem {l : ι} (h : ptr.Meets (link l c s)) : l ∈ ptr.links := by
  induction ptr with
  | null => simp [Meets] at h
  | link l' c' s' ihc ihs =>
    rcases h with h | h | h
    · simp [(LinkPtr.link.inj h).1]
    · simp [ihc h]
    · simp [ihs h]

end

/-- The `child` pointer of a link met on the way is the one it is met with. -/
theorem Meets.childOf {l : ι} (hnd : ptr.links.Nodup) (h : ptr.Meets (link l c s)) :
    ptr.childOf l = c := by
  induction ptr with
  | null => simp [Meets] at h
  | link l' c' s' ihc ihs =>
    simp only [links_link, List.nodup_cons, List.mem_append, not_or, List.nodup_append] at hnd
    obtain ⟨⟨hlc, hls⟩, hc, hs, hcs⟩ := hnd
    rcases h with h | h | h
    · obtain ⟨rfl, rfl, -⟩ := LinkPtr.link.inj h
      rw [LinkPtr.childOf, if_pos rfl]
    · have hne : l ≠ l' := fun e ↦ hlc (e ▸ h.mem)
      rw [LinkPtr.childOf, if_neg hne, if_pos h.mem, ihc hc h]
    · have hne : l ≠ l' := fun e ↦ hls (e ▸ h.mem)
      have hlc' : l ∉ c'.links := fun e ↦ hcs l e l h.mem rfl
      rw [LinkPtr.childOf, if_neg hne, if_neg hlc', ihs hs h]

section

omit [DecidableEq ι]

theorem Meets.trans {q r ptr : LinkPtr ι} (h : ptr.Meets q) (hq : q.Meets r) : ptr.Meets r := by
  induction ptr with
  | null =>
    obtain rfl : q = null := h
    exact hq
  | link l c s ihc ihs =>
    rcases h with rfl | h | h
    · exact hq
    · exact .inr (.inl (ihc h))
    · exact .inr (.inr (ihs h))

theorem Meets.sublist {q ptr : LinkPtr ι} (h : ptr.Meets q) : q.links.Sublist ptr.links := by
  induction ptr with
  | null =>
    obtain rfl : q = null := h
    exact List.Sublist.refl _
  | link l c s ihc ihs =>
    rcases h with rfl | h | h
    · exact List.Sublist.refl _
    · exact ((ihc h).trans (List.sublist_append_left _ _)).cons l
    · exact ((ihs h).trans (List.sublist_append_right _ _)).cons l

theorem exists_meets_of_mem_links (h : i ∈ ptr.links) : ∃ c s, ptr.Meets (link i c s) := by
  induction ptr with
  | null => simp at h
  | link l c s ihc ihs =>
    simp only [links_link, List.mem_cons, List.mem_append] at h
    rcases h with rfl | h | h
    · exact ⟨c, s, .inl rfl⟩
    · obtain ⟨c', s', h'⟩ := ihc h
      exact ⟨c', s', .inr (.inl h')⟩
    · obtain ⟨c', s', h'⟩ := ihs h
      exact ⟨c', s', .inr (.inr h')⟩

end

theorem Joins.of_childOf {x p q i : ι} (h : (ptr.childOf x).Joins x q i) : ptr.Joins p q i := by
  induction ptr generalizing p with
  | null => exact h.elim
  | link l c s ihc ihs =>
    rw [LinkPtr.childOf] at h
    split_ifs at h with hl hc
    · exact .inr (.inl (hl ▸ h))
    · exact .inr (.inl (ihc h))
    · exact .inr (.inr (ihs h))

theorem meets_childOf (ptr : LinkPtr ι) (i : ι) : ptr.Meets (ptr.childOf i) := by
  induction ptr with
  | null => rfl
  | link l c s ihc ihs =>
    rw [LinkPtr.childOf]
    split_ifs
    · exact .inr (.inl (meets_self c))
    · exact .inr (.inl ihc)
    · exact .inr (.inr ihs)

end LinkPtr

/-- A tree of links: a root, the pointer to its first child, and no link twice. -/
structure LinkTree (ι : Type*) where
  /-- The root link. -/
  root : ι
  /-- The `child` pointer of the root. -/
  child : LinkPtr ι
  /-- No link occurs twice. -/
  nodup : (root :: child.links).Nodup

namespace LinkTree

/-- All links, in the order of `LinkTraverse::find(root)`: a link, then the subtrees of its
children in sibling order. -/
def links (t : LinkTree ι) : List ι :=
  t.root :: t.child.links

theorem links_nodup (t : LinkTree ι) : t.links.Nodup :=
  t.nodup

theorem root_mem (t : LinkTree ι) : t.root ∈ t.links := by
  simp [links]

theorem root_notMem_child (t : LinkTree ι) : t.root ∉ t.child.links :=
  (List.nodup_cons.1 t.nodup).1

theorem child_nodup (t : LinkTree ι) : t.child.links.Nodup :=
  (List.nodup_cons.1 t.nodup).2

variable [DecidableEq ι] (t : LinkTree ι)

/-- The `parent` pointer. -/
def parent (i : ι) : Option ι :=
  t.child.parentIn t.root i

/-- The `child` pointer. -/
def childPtr (i : ι) : LinkPtr ι :=
  if i = t.root then t.child else t.child.childOf i

/-- The children of a link, in sibling order. -/
def children (i : ι) : List ι :=
  (t.childPtr i).siblings

variable {q i : ι}

theorem parent_eq_some_iff : t.parent i = some q ↔ t.child.Joins t.root q i :=
  LinkPtr.parentIn_eq_some_iff t.child_nodup

@[simp]
theorem parent_root : t.parent t.root = none := by
  rw [Option.eq_none_iff_forall_ne_some]
  intro q hq
  exact t.root_notMem_child ((t.parent_eq_some_iff.1 hq).mem.2)

theorem parent_mem (h : t.parent i = some q) : q ∈ t.links ∧ i ∈ t.links := by
  obtain ⟨hq, hi⟩ := (t.parent_eq_some_iff.1 h).mem
  exact ⟨hq, List.mem_cons_of_mem _ hi⟩

theorem parent_ne_self (h : t.parent i = some q) : q ≠ i := by
  rintro rfl
  have hbefore : Before t.links q q := (t.parent_eq_some_iff.1 h).before
  exact List.nodup_iff_sublist.1 t.links_nodup q hbefore

theorem ne_root_of_parent (h : t.parent i = some q) : i ≠ t.root := by
  rintro rfl
  rw [parent_root] at h
  exact absurd h (by simp)

variable {i : ι}

theorem exists_parent (h : i ∈ t.links) (hr : i ≠ t.root) : ∃ q, t.parent i = some q := by
  have hi : i ∈ t.child.links := (List.mem_cons.1 h).resolve_left hr
  obtain ⟨q, hq⟩ := LinkPtr.exists_joins t.root hi
  exact ⟨q, t.parent_eq_some_iff.2 hq⟩

theorem mem_child_of_parent (h : t.parent i = some q) : i ∈ t.child.links :=
  (List.mem_cons.1 (t.parent_mem h).2).resolve_left (t.ne_root_of_parent h)

omit [DecidableEq ι] in
theorem ne_root_of_mem_child (h : i ∈ t.child.links) : i ≠ t.root := fun e ↦
  t.root_notMem_child (e ▸ h)

theorem exists_parent_of_mem_child (h : i ∈ t.child.links) : ∃ q, t.parent i = some q :=
  t.exists_parent (List.mem_cons_of_mem _ h) (t.ne_root_of_mem_child h)

/-- The children of a link are the links it is the parent of. -/
theorem mem_children {p c : ι} : c ∈ t.children p ↔ t.parent c = some p := by
  rw [parent_eq_some_iff, LinkPtr.joins_iff t.root_notMem_child t.child_nodup, children, childPtr]
  split_ifs with h
  · subst h
    simp [LinkPtr.childOf_of_notMem t.root_notMem_child]
  · simp [h]

/-- Parents precede their children in `links`. -/
theorem readsEarlier_parent : ReadsEarlier (fun i ↦ (t.parent i).toList) t.links := by
  intro i _ q hq _
  exact (t.parent_eq_some_iff.1 (by simpa using hq)).before

/-- Children precede their parent in the reversed order. -/
theorem readsEarlier_children : ReadsEarlier t.children t.links.reverse := by
  intro p _ c hc _
  exact Before.reverse (t.parent_eq_some_iff.1 (t.mem_children.1 hc)).before

theorem parent_induction {P : ι → Prop} (hroot : P t.root)
    (hstep : ∀ p c, t.parent c = some p → P p → P c) : ∀ i ∈ t.links, P i := by
  refine t.readsEarlier_parent.induction t.links_nodup fun i hi ih ↦ ?_
  by_cases hr : i = t.root
  · exact hr ▸ hroot
  · obtain ⟨p, hp⟩ := t.exists_parent hi hr
    exact hstep p i hp (ih p (by simp [hp]) (t.parent_mem hp).1)

theorem children_induction {P : ι → Prop}
    (hstep : ∀ i ∈ t.links, (∀ c ∈ t.children i, P c) → P i) : ∀ i ∈ t.links, P i := by
  intro i hi
  refine t.readsEarlier_children.induction (List.nodup_reverse.2 t.links_nodup) ?_ i (by simpa)
  intro j hj ih
  refine hstep j (by simpa using hj) fun c hc ↦ ih c hc ?_
  simpa using (t.parent_mem (t.mem_children.1 hc)).2

/-- Parents have smaller positions in `links`. -/
theorem idxOf_parent_lt {p i : ι} (h : t.parent i = some p) :
    t.links.idxOf p < t.links.idxOf i :=
  ((t.parent_eq_some_iff.1 h).before).idxOf_lt t.links_nodup

/-! ### Subtrees -/

theorem meets_childPtr (i : ι) : t.child.Meets (t.childPtr i) := by
  rw [childPtr]
  split_ifs
  · exact LinkPtr.meets_self _
  · exact t.child.meets_childOf i

/-- A link met on the way through the tree is met with its own `child` pointer. -/
theorem childPtr_of_meets {l : ι} {c s : LinkPtr ι} (h : t.child.Meets (.link l c s)) :
    t.childPtr l = c := by
  have hroot : l ≠ t.root := fun e ↦ t.root_notMem_child (e ▸ h.mem)
  rw [childPtr, if_neg hroot, h.childOf t.child_nodup]

/-- The parents of the links below `x`. -/
theorem parent_of_joins_childPtr {x q i : ι} (h : (t.childPtr x).Joins x q i) :
    t.parent i = some q := by
  rw [parent_eq_some_iff]
  rw [childPtr] at h
  split_ifs at h with hx
  · exact hx ▸ h
  · exact h.of_childOf

/-- A link with everything below it. -/
def below (i : ι) : List ι :=
  i :: (t.childPtr i).links

theorem notMem_childPtr_self (i : ι) : i ∉ (t.childPtr i).links := by
  rw [childPtr]
  split_ifs with hi
  · exact hi ▸ t.root_notMem_child
  · intro h
    obtain ⟨c, s, hm⟩ := LinkPtr.exists_meets_of_mem_links h
    have hc : t.childPtr i = c := t.childPtr_of_meets ((t.child.meets_childOf i).trans hm)
    rw [childPtr, if_neg hi] at hc
    have hle := hm.sublist.length_le
    rw [hc, LinkPtr.links_link, List.length_cons, List.length_append] at hle
    omega

/-- What is below a child of `p` is below `p`. -/
theorem below_subset_of_parent {p i : ι} (h : t.parent i = some p) :
    t.below i ⊆ (t.childPtr p).links := by
  have hi : i ∈ (t.childPtr p).links := LinkPtr.siblings_subset _ (t.mem_children.2 h)
  obtain ⟨c, s, hm⟩ := LinkPtr.exists_meets_of_mem_links hi
  have hc : t.childPtr i = c := t.childPtr_of_meets ((t.meets_childPtr p).trans hm)
  intro j hj
  refine hm.sublist.subset ?_
  rw [below, hc] at hj
  rw [LinkPtr.links_link, ← List.cons_append]
  exact List.mem_append_left _ hj

theorem notMem_below_of_parent {p i : ι} (h : t.parent i = some p) : p ∉ t.below i := fun hp ↦
  t.notMem_childPtr_self p (t.below_subset_of_parent h hp)

/-- The children of a link below a pointer are below the pointer. -/
theorem children_subset_of_meets {ptr : LinkPtr ι} (hptr : t.child.Meets ptr) (hi : i ∈ ptr.links) :
    t.children i ⊆ ptr.links := by
  obtain ⟨c, s, hm⟩ := LinkPtr.exists_meets_of_mem_links hi
  have hc : t.childPtr i = c := t.childPtr_of_meets (hptr.trans hm)
  intro j hj
  rw [children, hc] at hj
  exact hm.below.1.sublist.subset (LinkPtr.siblings_subset _ hj)

/-- What is below a link below a pointer is below the pointer. -/
theorem below_subset_of_meets {ptr : LinkPtr ι} (hptr : t.child.Meets ptr) (hi : i ∈ ptr.links) :
    t.below i ⊆ ptr.links := by
  obtain ⟨c, s, hm⟩ := LinkPtr.exists_meets_of_mem_links hi
  intro j hj
  rw [below, t.childPtr_of_meets (hptr.trans hm)] at hj
  refine hm.sublist.subset ?_
  rw [LinkPtr.links_link, ← List.cons_append]
  exact List.mem_append_left _ hj

theorem below_root : t.below t.root = t.links := by
  rw [below, childPtr, if_pos rfl]
  rfl

/-- What is below a link is the link itself or below one of its children. -/
theorem mem_below_iff {i x : ι} : x ∈ t.below i ↔ x = i ∨ ∃ c ∈ t.children i, x ∈ t.below c := by
  have key : ∀ ptr : LinkPtr ι, t.child.Meets ptr →
      (x ∈ ptr.links ↔ ∃ c ∈ ptr.siblings, x ∈ t.below c) := by
    intro ptr
    induction ptr with
    | null => simp
    | link l c s _ ihs =>
      intro h
      rw [LinkPtr.siblings_link, LinkPtr.links_link, ← List.cons_append, List.mem_append,
        ihs h.below.2]
      simp only [List.mem_cons, exists_eq_or_imp, below, t.childPtr_of_meets h]
  rw [below, List.mem_cons, children, key _ (t.meets_childPtr i)]

theorem below_sublist (hi : i ∈ t.links) : (t.below i).Sublist t.links := by
  rcases eq_or_ne i t.root with rfl | hr
  · rw [t.below_root]
  · obtain ⟨c, s, hm⟩ :=
      LinkPtr.exists_meets_of_mem_links ((List.mem_cons.1 hi).resolve_left hr)
    rw [below, t.childPtr_of_meets hm]
    exact ((List.sublist_append_left _ _).cons_cons i).trans (hm.sublist.cons t.root)

/-- What is below a link is the link itself or has a parent below it. -/
theorem mem_below_iff_parent {i x : ι} :
    x ∈ t.below i ↔ x = i ∨ ∃ p, t.parent x = some p ∧ p ∈ t.below i := by
  constructor
  · intro h
    have key : ∀ i ∈ t.links, x ∈ t.below i →
        x = i ∨ ∃ p, t.parent x = some p ∧ p ∈ t.below i := by
      refine t.children_induction fun i _ ih hx ↦ ?_
      rcases t.mem_below_iff.1 hx with rfl | ⟨c, hc, hxc⟩
      · exact .inl rfl
      · have hci : t.parent c = some i := t.mem_children.1 hc
        rcases ih c hc hxc with rfl | ⟨p, hp, hpc⟩
        · exact .inr ⟨i, hci, List.mem_cons_self⟩
        · exact .inr ⟨p, hp, List.mem_cons_of_mem _ (t.below_subset_of_parent hci hpc)⟩
    rcases t.mem_below_iff.1 h with rfl | ⟨c, hc, -⟩
    · exact .inl rfl
    · exact key i (t.parent_mem (t.mem_children.1 hc)).1 h
  · rintro (rfl | ⟨p, hp, hpi⟩)
    · exact List.mem_cons_self
    · have hxp : x ∈ t.children p := t.mem_children.2 hp
      rcases List.mem_cons.1 hpi with rfl | hpi
      · exact List.mem_cons_of_mem _ (LinkPtr.siblings_subset _ hxp)
      · exact List.mem_cons_of_mem _ (t.children_subset_of_meets (t.meets_childPtr i) hpi hxp)

/-- A connection that is not the one above `j` stays on its side of `j`. -/
theorem mem_below_iff_of_parent {c p j : ι} (h : t.parent c = some p) (hcj : c ≠ j) :
    c ∈ t.below j ↔ p ∈ t.below j := by
  rw [mem_below_iff_parent, h]
  simp [hcj]

theorem mem_below_trans {i j x : ι} (hx : x ∈ t.below j) (hj : j ∈ t.below i) : x ∈ t.below i := by
  rcases t.mem_below_iff_parent.1 hx with rfl | ⟨q, hq, -⟩
  · exact hj
  · revert hx
    refine t.parent_induction (P := fun x ↦ x ∈ t.below j → x ∈ t.below i) ?_ ?_ x
      (t.parent_mem hq).2
    · intro h
      rcases t.mem_below_iff_parent.1 h with rfl | ⟨p, hp, -⟩
      · exact hj
      · exact absurd (t.parent_root.symm.trans hp) (by simp)
    · intro p c hpc ih h
      rcases eq_or_ne c j with rfl | hcj
      · exact hj
      · exact t.mem_below_iff_parent.2
          (.inr ⟨p, hpc, ih ((t.mem_below_iff_of_parent hpc hcj).1 h)⟩)

/-- Two links above the same link are one above the other. -/
theorem mem_below_or_mem_below {i j x : ι} (hx : x ∈ t.links) (hi : x ∈ t.below i)
    (hj : x ∈ t.below j) : i ∈ t.below j ∨ j ∈ t.below i := by
  revert hi hj
  refine t.parent_induction (P := fun x ↦ x ∈ t.below i → x ∈ t.below j →
    i ∈ t.below j ∨ j ∈ t.below i) ?_ ?_ x hx
  · intro hi hj
    rcases t.mem_below_iff_parent.1 hi with rfl | ⟨p, hp, -⟩
    · exact .inl hj
    · exact absurd (t.parent_root.symm.trans hp) (by simp)
  · intro p c hpc ih hi hj
    rcases eq_or_ne c i with rfl | hci
    · exact .inl hj
    · rcases eq_or_ne c j with rfl | hcj
      · exact .inr hi
      · exact ih ((t.mem_below_iff_of_parent hpc hci).1 hi)
          ((t.mem_below_iff_of_parent hpc hcj).1 hj)

/-- A link is below at most one of the children of a link. -/
theorem eq_of_mem_below_children {p c c' x : ι} (hc : t.parent c = some p)
    (hc' : t.parent c' = some p) (hx : x ∈ t.below c) (hx' : x ∈ t.below c') : c = c' := by
  have hxl : x ∈ t.links := (t.below_sublist (t.parent_mem hc).2).subset hx
  by_contra hne
  rcases t.mem_below_or_mem_below hxl hx hx' with h | h
  · exact t.notMem_below_of_parent hc' ((t.mem_below_iff_of_parent hc hne).1 h)
  · exact t.notMem_below_of_parent hc ((t.mem_below_iff_of_parent hc' (Ne.symm hne)).1 h)

/-- The subtree of a child is smaller. -/
theorem length_below_lt {p i : ι} (h : t.parent i = some p) :
    (t.below i).length < (t.below p).length := by
  have hsub : t.below i ⊆ (t.childPtr p).links := t.below_subset_of_parent h
  have hnd : (t.below i).Nodup := (t.below_sublist (t.parent_mem h).2).nodup t.links_nodup
  exact Nat.lt_succ_of_le (hnd.subperm hsub).length_le

theorem notMem_children_self (i : ι) : i ∉ t.children i := fun h ↦
  t.parent_ne_self (t.mem_children.1 h) rfl

/-! ### Loops over a tree -/

/-- `for(i=0; i < n; ++i)` over the links, each rewritten from its parent and itself. -/
def forwardLoop (F : ι → Option M → M → M) (s : ι → M) : ι → M :=
  sweep (fun i s ↦ F i ((t.parent i).map s) (s i)) t.links s

/-- `for(i=n-1; i >= 0; --i)` over the links, each rewritten from its children and itself. -/
def reverseLoop (F : ι → List M → M → M) (s : ι → M) : ι → M :=
  sweep (fun i s ↦ F i ((t.children i).map s) (s i)) t.links.reverse s

/-- `for(i=1; i < n; ++i)` over the links without the root, each rewritten from itself. -/
def jointLoop (F : ι → M → M) (s : ι → M) : ι → M :=
  sweep (fun i s ↦ F i (s i)) t.child.links s

theorem jointLoop_of_mem (F : ι → M → M) (s : ι → M) (hi : i ∈ t.child.links) :
    t.jointLoop F s i = F i (s i) := by
  have hloc : LocalTo (fun _ ↦ []) (fun i (s : ι → M) ↦ F i (s i)) := fun i _ _ h _ ↦
    congrArg (F i) h
  rw [jointLoop, sweep_eq_step hloc t.child_nodup (by simp [ReadsEarlier]) (by simp) s hi,
    Function.update_self]

theorem jointLoop_of_notMem (F : ι → M → M) (s : ι → M) (hi : i ∉ t.child.links) :
    t.jointLoop F s i = s i :=
  sweep_of_notMem _ hi s

theorem reverseLoop_of_notMem (F : ι → List M → M → M) (s : ι → M) (hi : i ∉ t.links) :
    t.reverseLoop F s i = s i :=
  sweep_of_notMem _ (by simpa using hi) s

/-- A forward loop leaves in every link the value computed from the final value of its parent. -/
theorem forwardLoop_eq (F : ι → Option M → M → M) (s : ι → M) (hi : i ∈ t.links) :
    t.forwardLoop F s i = F i ((t.parent i).map (t.forwardLoop F s)) (s i) := by
  have hloc : LocalTo (fun i ↦ (t.parent i).toList)
      fun i (s : ι → M) ↦ F i ((t.parent i).map s) (s i) := by
    intro i s s' hself hreads
    have hmap : (t.parent i).map s = (t.parent i).map s' :=
      Option.map_congr fun p hp ↦ hreads p (by simpa using hp)
    show F i ((t.parent i).map s) (s i) = F i ((t.parent i).map s') (s' i)
    rw [hself, hmap]
  have hne : ∀ i, i ∉ (t.parent i).toList := fun i h ↦
    t.parent_ne_self (by simpa using h) rfl
  have heq : t.forwardLoop F s i =
      F i ((t.parent i).map (Function.update (t.forwardLoop F s) i (s i)))
        (Function.update (t.forwardLoop F s) i (s i) i) :=
    sweep_eq_step hloc t.links_nodup t.readsEarlier_parent hne s hi
  have hmap : (t.parent i).map (Function.update (t.forwardLoop F s) i (s i)) =
      (t.parent i).map (t.forwardLoop F s) :=
    Option.map_congr fun p hp ↦ Function.update_of_ne (t.parent_ne_self hp) _ _
  rwa [hmap, Function.update_self] at heq

/-- A reverse loop leaves in every link the value computed from the final values of its
children. -/
theorem reverseLoop_eq (F : ι → List M → M → M) (s : ι → M) (hi : i ∈ t.links) :
    t.reverseLoop F s i = F i ((t.children i).map (t.reverseLoop F s)) (s i) := by
  have hloc : LocalTo t.children fun i (s : ι → M) ↦ F i ((t.children i).map s) (s i) := by
    intro i s s' hself hreads
    show F i ((t.children i).map s) (s i) = F i ((t.children i).map s') (s' i)
    rw [hself, List.map_congr_left hreads]
  have heq : t.reverseLoop F s i =
      F i ((t.children i).map (Function.update (t.reverseLoop F s) i (s i)))
        (Function.update (t.reverseLoop F s) i (s i) i) :=
    sweep_eq_step hloc (List.nodup_reverse.2 t.links_nodup) t.readsEarlier_children
      t.notMem_children_self s (by simpa using hi)
  have hmap : (t.children i).map (Function.update (t.reverseLoop F s) i (s i)) =
      (t.children i).map (t.reverseLoop F s) :=
    List.map_congr_left fun c hc ↦
      Function.update_of_ne (fun h : c = i ↦ t.notMem_children_self i (h ▸ hc)) _ _
  rwa [hmap, Function.update_self] at heq

/-! ### Sums over subtrees -/

/-- The sum of `g` over a link and everything below it. -/
def subtreeSum [AddCommMonoid M] (g : ι → M) (i : ι) : M :=
  g i + (t.childPtr i).sum g

/-- The sum over a subtree is the value at its top plus the sums over the subtrees of the
children. -/
theorem subtreeSum_eq [AddCommMonoid M] (g : ι → M) (i : ι) :
    t.subtreeSum g i = g i + ((t.children i).map (t.subtreeSum g)).sum := by
  have key : ∀ ptr : LinkPtr ι, t.child.Meets ptr →
      ptr.sum g = (ptr.siblings.map (t.subtreeSum g)).sum := by
    intro ptr
    induction ptr with
    | null => intro; rfl
    | link l c s _ ihs =>
      intro h
      rw [LinkPtr.sum, ihs h.below.2, LinkPtr.siblings_link, List.map_cons, List.sum_cons,
        subtreeSum, t.childPtr_of_meets h]
  rw [subtreeSum, children, key _ (t.meets_childPtr i)]

/-- Sums over subtrees commute with additive maps. -/
theorem map_subtreeSum {N : Type*} [AddCommMonoid M] [AddCommMonoid N] (φ : M →+ N) (g : ι → M)
    (i : ι) : φ (t.subtreeSum g i) = t.subtreeSum (fun j ↦ φ (g j)) i := by
  rw [subtreeSum, subtreeSum, map_add, LinkPtr.sum_eq_sum_links, LinkPtr.sum_eq_sum_links,
    map_list_sum, List.map_map]
  rfl

theorem subtreeSum_add [AddCommMonoid M] (g g' : ι → M) (i : ι) :
    t.subtreeSum (fun j ↦ g j + g' j) i = t.subtreeSum g i + t.subtreeSum g' i := by
  rw [subtreeSum, subtreeSum, subtreeSum, LinkPtr.sum_eq_sum_links, LinkPtr.sum_eq_sum_links,
    LinkPtr.sum_eq_sum_links, List.sum_map_add, add_add_add_comm]

theorem subtreeSum_congr [AddCommMonoid M] {g g' : ι → M} (h : ∀ j ∈ t.below i, g j = g' j) :
    t.subtreeSum g i = t.subtreeSum g' i := by
  rw [subtreeSum, subtreeSum, h i List.mem_cons_self, LinkPtr.sum_eq_sum_links,
    LinkPtr.sum_eq_sum_links, List.map_congr_left fun j hj ↦ h j (List.mem_cons_of_mem i hj)]

theorem subtreeSum_root [AddCommMonoid M] (g : ι → M) :
    t.subtreeSum g t.root = (t.links.map g).sum := by
  rw [subtreeSum, childPtr, if_pos rfl, LinkPtr.sum_eq_sum_links, links, List.map_cons,
    List.sum_cons]

variable {R E F : Type*}

theorem subtreeSum_linear_apply [Semiring R] [AddCommMonoid E] [AddCommMonoid F]
    [Module R E] [Module R F] (G : ι → E →ₗ[R] F) (i : ι) (x : E) :
    t.subtreeSum G i x = t.subtreeSum (fun k ↦ G k x) i :=
  t.map_subtreeSum (⟨⟨fun f ↦ f x, rfl⟩, fun _ _ ↦ rfl⟩ : (E →ₗ[R] F) →+ F) G i

/-- Values that grow from parent to child by `x`, seen through linear maps `G`: what a link adds
is passed on to everything below it. -/
theorem subtreeSum_apply_eq [Semiring R] [AddCommMonoid E] [AddCommMonoid F]
    [Module R E] [Module R F] (G : ι → E →ₗ[R] F) {V x : ι → E}
    (h : ∀ p c, t.parent c = some p → V c = V p + x c) (i : ι) :
    t.subtreeSum (fun k ↦ G k (V k)) i =
      t.subtreeSum G i (V i) +
        ((t.childPtr i).links.map fun l ↦ t.subtreeSum G l (x l)).sum := by
  have key : ∀ (p : ι) (ptr : LinkPtr ι), t.child.Meets ptr →
      (∀ q i, ptr.Joins p q i → t.parent i = some q) →
      ptr.sum (fun i ↦ G i (V i)) =
        ptr.sum G (V p) + ptr.sum fun i ↦ t.subtreeSum G i (x i) := by
    intro p ptr
    induction ptr generalizing p with
    | null => intros; simp [LinkPtr.sum]
    | link l c s ihc ihs =>
      intro hmeets hjoins
      have hc := ihc l hmeets.below.1 fun q i hqi ↦ hjoins q i (.inr (.inl hqi))
      have hs := ihs p hmeets.below.2 fun q i hqi ↦ hjoins q i (.inr (.inr hqi))
      have hl : V l = V p + x l := h p l (hjoins p l (.inl ⟨rfl, rfl⟩))
      have hsub : t.subtreeSum G l = G l + c.sum G := by
        rw [subtreeSum, t.childPtr_of_meets hmeets]
      calc (LinkPtr.link l c s).sum (fun i ↦ G i (V i))
          = (G l + c.sum G) (V l) + (c.sum fun i ↦ t.subtreeSum G i (x i)) +
              (s.sum G (V p) + s.sum fun i ↦ t.subtreeSum G i (x i)) := by
            rw [LinkPtr.sum, hc, hs, LinearMap.add_apply, ← add_assoc (G l (V l))]
        _ = (G l + c.sum G + s.sum G) (V p) +
              (t.subtreeSum G l (x l) + (c.sum fun i ↦ t.subtreeSum G i (x i)) +
                s.sum fun i ↦ t.subtreeSum G i (x i)) := by
            rw [hl, hsub, map_add, LinearMap.add_apply (G l + c.sum G)]
            abel
  have hi := key i (t.childPtr i) (t.meets_childPtr i) fun q k hqk ↦
    t.parent_of_joins_childPtr hqk
  rw [subtreeSum, hi, ← LinkPtr.sum_eq_sum_links, subtreeSum, LinearMap.add_apply, add_assoc]

theorem sum_apply_eq [Semiring R] [AddCommMonoid E] [AddCommMonoid F] [Module R E] [Module R F]
    (G : ι → E →ₗ[R] F) {V x : ι → E} (h : ∀ p c, t.parent c = some p → V c = V p + x c) :
    (t.links.map fun i ↦ G i (V i)).sum =
      t.subtreeSum G t.root (V t.root) +
        (t.child.links.map fun i ↦ t.subtreeSum G i (x i)).sum := by
  have hroot : t.childPtr t.root = t.child := by rw [childPtr, if_pos rfl]
  rw [← t.subtreeSum_root, t.subtreeSum_apply_eq G h, hroot]

/-! ### Values that grow along the tree -/

section Grow

variable [AddCommMonoid M]

/-- The values that start with `x` at the root and grow by `y` from parent to child. -/
def grow (x : M) (y : ι → M) : ι → M :=
  t.forwardLoop (fun i parent _ ↦ parent.elim x (· + y i)) 0

variable (x : M) (y : ι → M)

@[simp]
theorem grow_root : t.grow x y t.root = x := by
  rw [grow, t.forwardLoop_eq _ _ t.root_mem, parent_root]
  rfl

theorem grow_child {p c : ι} (h : t.parent c = some p) :
    t.grow x y c = t.grow x y p + y c := by
  rw [grow, t.forwardLoop_eq _ _ (t.parent_mem h).2, h]
  rfl

variable {x y}

theorem eq_grow {V : ι → M} (hroot : V t.root = x)
    (h : ∀ p c, t.parent c = some p → V c = V p + y c) : ∀ i ∈ t.links, V i = t.grow x y i := by
  refine t.parent_induction (by rw [hroot, grow_root]) fun p c hpc ih ↦ ?_
  rw [h p c hpc, ih, t.grow_child x y hpc]

theorem grow_congr {y y' : ι → M} (h : ∀ i ∈ t.child.links, y i = y' i) :
    ∀ i ∈ t.links, t.grow x y i = t.grow x y' i :=
  t.eq_grow (t.grow_root x y) fun p c hpc ↦ by
    rw [t.grow_child x y hpc, h c (t.mem_child_of_parent hpc)]

theorem grow_add (x x' : M) (y y' : ι → M) {i : ι} (hi : i ∈ t.links) :
    t.grow (x + x') (y + y') i = t.grow x y i + t.grow x' y' i := by
  refine (t.eq_grow (V := fun i ↦ t.grow x y i + t.grow x' y' i) (by simp)
    (fun p c hpc ↦ ?_) i hi).symm
  rw [t.grow_child x y hpc, t.grow_child x' y' hpc, Pi.add_apply, add_add_add_comm]

theorem map_grow {N : Type*} [AddCommMonoid N] (φ : M →+ N) (x : M) (y : ι → M) {i : ι}
    (hi : i ∈ t.links) : φ (t.grow x y i) = t.grow (φ x) (fun i ↦ φ (y i)) i :=
  t.eq_grow (V := fun i ↦ φ (t.grow x y i)) (by simp)
    (fun p c hpc ↦ by rw [t.grow_child x y hpc, map_add]) i hi

theorem grow_sum {γ : Type*} (l : Finset γ) (x : γ → M) (y : γ → ι → M) {i : ι}
    (hi : i ∈ t.links) : t.grow (∑ c ∈ l, x c) (∑ c ∈ l, y c) i =
      ∑ c ∈ l, t.grow (x c) (y c) i := by
  refine (t.eq_grow (V := fun i ↦ ∑ c ∈ l, t.grow (x c) (y c) i) (by simp)
    (fun p c hpc ↦ ?_) i hi).symm
  rw [Finset.sum_apply, ← Finset.sum_add_distrib]
  exact Finset.sum_congr rfl fun k _ ↦ t.grow_child (x k) (y k) hpc

/-- What one link adds is carried by what is below it. -/
theorem grow_single {j : ι} (hj : j ∈ t.child.links) (z : M) :
    ∀ i ∈ t.links, t.grow 0 (Pi.single j z) i = if i ∈ t.below j then z else 0 := by
  refine t.parent_induction ?_ fun p c hpc ih ↦ ?_
  · have hroot : t.root ∉ t.below j := fun h ↦ by
      rcases t.mem_below_iff_parent.1 h with h | ⟨p, hp, -⟩
      · exact t.ne_root_of_mem_child hj h.symm
      · exact absurd (t.parent_root.symm.trans hp) (by simp)
    rw [t.grow_root, if_neg hroot]
  · rw [t.grow_child _ _ hpc, ih]
    rcases eq_or_ne c j with rfl | hcj
    · rw [if_neg (t.notMem_below_of_parent hpc), if_pos (by exact List.mem_cons_self),
        Pi.single_eq_same, zero_add]
    · rw [Pi.single_eq_of_ne hcj, add_zero]
      simp only [t.mem_below_iff_of_parent hpc hcj]

theorem grow_const (x : M) : ∀ i ∈ t.links, t.grow x 0 i = x := fun i hi ↦
  (t.eq_grow (V := fun _ ↦ x) rfl (fun _ _ _ ↦ (add_zero x).symm) i hi).symm

end Grow

/-- A sum over what one link adds is a sum over its subtree. -/
theorem sum_apply_grow_single [Semiring R] [AddCommMonoid E] [AddCommMonoid F]
    [Module R E] [Module R F] (G : ι → E →ₗ[R] F) {j : ι} (hj : j ∈ t.child.links) (z : E) :
    (t.links.map fun k ↦ G k (t.grow 0 (Pi.single j z) k)).sum = t.subtreeSum G j z := by
  have hcount : t.child.links.count j = 1 := List.count_eq_one_of_mem t.child_nodup hj
  have hsingle : ∀ i, i ≠ j → i ∈ t.child.links →
      t.subtreeSum G i ((Pi.single j z : ι → E) i) = 0 :=
    fun i hne _ ↦ by rw [Pi.single_eq_of_ne hne, map_zero]
  rw [t.sum_apply_eq G fun p c hpc ↦ t.grow_child _ _ hpc, t.grow_root, map_zero, zero_add,
    List.sum_map_eq_nsmul_single j _ hsingle, hcount, one_nsmul, Pi.single_eq_same]

/-- A sum of pairings of two fields that grow along the tree vanishes if every increment of the
second pairs to zero with all that its subtree can meet: any vector there, and the increments of
the first below. -/
theorem sum_pairing_eq_zero [CommRing R] [AddCommGroup E] [AddCommGroup F]
    [Module R E] [Module R F] (b : ι → E →ₗ[R] F →ₗ[R] R) {W w : ι → E} {Y y : ι → F}
    (hW : ∀ p c, t.parent c = some p → W c = W p + w c)
    (hY : ∀ p c, t.parent c = some p → Y c = Y p + y c)
    (hroot : ∀ x, t.subtreeSum b t.root x (Y t.root) = 0)
    (hroot' : ∀ l ∈ t.child.links, t.subtreeSum b l (w l) (Y t.root) = 0)
    (hself : ∀ j ∈ t.child.links, ∀ x, t.subtreeSum b j x (y j) = 0)
    (hbelow : ∀ j ∈ t.child.links, ∀ l ∈ (t.childPtr j).links,
      t.subtreeSum b l (w l) (y j) = 0) :
    (t.links.map fun k ↦ b k (W k) (Y k)).sum = 0 := by
  have hfield : ∀ (z : F) (j : ι), t.subtreeSum (fun k ↦ b k (W k)) j z =
      t.subtreeSum b j (W j) z +
        ((t.childPtr j).links.map fun l ↦ t.subtreeSum b l (w l) z).sum := fun z j ↦ by
    have hflip : ∀ (l : ι) (x : E),
        t.subtreeSum (fun k ↦ (b k).flip z) l x = t.subtreeSum b l x z := fun l x ↦ by
      rw [subtreeSum_linear_apply, subtreeSum_linear_apply, subtreeSum_linear_apply]
      rfl
    have hsum := t.subtreeSum_apply_eq (fun k ↦ (b k).flip z) hW j
    simp only [hflip] at hsum
    rw [subtreeSum_linear_apply]
    exact hsum
  have hzero : ∀ (z : F) (j : ι), (∀ x, t.subtreeSum b j x z = 0) →
      (∀ l ∈ (t.childPtr j).links, t.subtreeSum b l (w l) z = 0) →
      t.subtreeSum (fun k ↦ b k (W k)) j z = 0 := fun z j hj hl ↦ by
    rw [hfield, hj, zero_add, List.map_congr_left hl]
    simp
  have hchild : t.childPtr t.root = t.child := by rw [childPtr, if_pos rfl]
  rw [t.sum_apply_eq (fun k ↦ b k (W k)) hY, hzero _ _ hroot (by rwa [hchild]), zero_add,
    List.map_congr_left fun j hj ↦ hzero (y j) j (hself j hj) (hbelow j hj)]
  simp

end LinkTree

/-- A root with one joint. -/
def oneJointTree : LinkTree (Fin 2) :=
  ⟨0, .link 1 .null .null, by decide⟩

end OpenHRP
