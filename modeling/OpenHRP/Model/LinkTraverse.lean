import OpenHRP.Model.LinkTree

/-!
# Traverses of a link tree

A `LinkTraverse` is a list of links in the order in which a pass over them runs, and the number of
connections at its front that lead from a child up to its parent. `LinkTraverse.find` collects one
from any link: the link and its ancestors, then the rest of the tree.

`IsTraverse` says what a pass relies on: an upward part, a chain of parents, and a downward part in
which every link comes after its parent, no link twice. `find` returns such a traverse from every
link, in every mode (`exists_find`), and it misses no link when it starts at the root or goes both
ways.
-/

namespace OpenHRP

variable {ι : Type*}

/-- Links in traversal order, the first of them connected upward. -/
structure LinkTraverse (ι : Type*) where
  links : List ι
  numUpwardConnections : ℕ
  deriving DecidableEq, Repr

/-! ### What a traverse is -/

section IsTraverse

variable [DecidableEq ι] (t : LinkTree ι)

/-- Every link of the list comes after its parent, where `S` is what came before the list, and no
link comes twice. -/
def Descends : Set ι → List ι → Prop
  | _, [] => True
  | S, i :: l => (∃ p ∈ S, t.parent i = some p) ∧ i ∉ S ∧ Descends (insert i S) l

/-- Every link of the list but the first is the parent of the one before it. -/
def Ascends (l : List ι) : Prop :=
  l.IsChain fun c p ↦ t.parent c = some p

/-- An upward part from `base` followed by a downward part. -/
structure IsTraverse (base : ι) (ups downs : List ι) (tr : LinkTraverse ι) : Prop where
  eq : tr = ⟨base :: (ups ++ downs), ups.length⟩
  ascends : Ascends t (base :: ups)
  descends : Descends t { i | i ∈ base :: ups } downs

variable {t}

variable {S : Set ι}

theorem descends_append {l l' : List ι} :
    Descends t S (l ++ l') ↔ Descends t S l ∧ Descends t (S ∪ { i | i ∈ l }) l' := by
  induction l generalizing S with
  | nil => simp [Descends]
  | cons i l ih =>
    have hset : insert i S ∪ { j | j ∈ l } = S ∪ { j | j ∈ i :: l } := by
      refine Set.ext fun j ↦ ?_
      simp only [Set.mem_union, Set.mem_insert_iff, Set.mem_ofPred_eq, List.mem_cons]
      tauto
    rw [List.cons_append, Descends, Descends, ih, hset]
    tauto

variable {l : List ι}

theorem Descends.notMem (h : Descends t S l) {i : ι} (hi : i ∈ l) : i ∉ S := by
  induction l generalizing S with
  | nil => simp at hi
  | cons j l ih =>
    rcases List.mem_cons.1 hi with rfl | hi
    · exact h.2.1
    · exact fun hS ↦ ih h.2.2 hi (Set.mem_insert_of_mem j hS)

theorem Descends.exists_parent (h : Descends t S l) {i : ι} (hi : i ∈ l) :
    ∃ p, (p ∈ S ∨ p ∈ l) ∧ t.parent i = some p := by
  induction l generalizing S with
  | nil => simp at hi
  | cons j l ih =>
    rcases List.mem_cons.1 hi with rfl | hi
    · obtain ⟨p, hp, hpi⟩ := h.1
      exact ⟨p, .inl hp, hpi⟩
    · obtain ⟨p, hp, hpi⟩ := ih h.2.2 hi
      refine ⟨p, ?_, hpi⟩
      rcases hp with (rfl | hp) | hp
      · exact .inr (by simp)
      · exact .inl hp
      · exact .inr (List.mem_cons_of_mem j hp)

/-- Going up, positions in the tree get smaller. -/
theorem Ascends.idxOf_lt {c : ι} (h : Ascends t (c :: l)) {p : ι} (hp : p ∈ l) :
    t.links.idxOf p < t.links.idxOf c := by
  induction l generalizing c with
  | nil => simp at hp
  | cons q l ih =>
    obtain ⟨hq, hl⟩ := List.isChain_cons_cons.1 h
    have hlt := t.idxOf_parent_lt hq
    rcases List.mem_cons.1 hp with rfl | hp
    · exact hlt
    · exact (ih hl hp).trans hlt

theorem Ascends.mem_links {c : ι} (h : Ascends t (c :: l)) {p : ι} (hp : p ∈ l) : p ∈ t.links := by
  induction l generalizing c with
  | nil => simp at hp
  | cons q l ih =>
    obtain ⟨hq, hl⟩ := List.isChain_cons_cons.1 h
    rcases List.mem_cons.1 hp with rfl | hp
    · exact (t.parent_mem hq).1
    · exact ih hl hp

/-- A link of an upward part is followed by its parent, or is the last. -/
theorem Ascends.eq_or_le {base : ι} {ups : List ι} (h : Ascends t (base :: ups)) {c p : ι}
    (hc : c ∈ base :: ups) (hp : t.parent c = some p) :
    (∃ l l', base :: ups = l ++ c :: p :: l') ∨
      ∀ i ∈ base :: ups, t.links.idxOf c ≤ t.links.idxOf i := by
  induction ups generalizing base with
  | nil =>
    obtain rfl : c = base := by simpa using hc
    exact .inr fun i hi ↦ le_of_eq (by rw [show i = c by simpa using hi])
  | cons q l ih =>
    obtain ⟨hq, hl⟩ := List.isChain_cons_cons.1 h
    rcases List.mem_cons.1 hc with rfl | hc
    · obtain rfl : q = p := Option.some_inj.1 (hq.symm.trans hp)
      exact .inl ⟨[], l, rfl⟩
    · rcases ih hl hc with ⟨l₁, l₂, heq⟩ | hle
      · exact .inl ⟨base :: l₁, l₂, by rw [heq, List.cons_append]⟩
      · refine .inr fun i hi ↦ ?_
        rcases List.mem_cons.1 hi with rfl | hi
        · exact (hle q (by simp)).trans (t.idxOf_parent_lt hq).le
        · exact hle i hi

/-- Going down, positions in the tree stay above those of the start. -/
theorem Descends.le_idxOf (h : Descends t S l) {m : ℕ} (hS : ∀ i ∈ S, m ≤ t.links.idxOf i) :
    ∀ i ∈ l, m ≤ t.links.idxOf i := by
  induction l generalizing S with
  | nil => simp
  | cons j l ih =>
    obtain ⟨⟨p, hp, hpj⟩, -, hl⟩ := h
    have hj : m ≤ t.links.idxOf j := (hS p hp).trans (t.idxOf_parent_lt hpj).le
    have hS' : ∀ i ∈ insert j S, m ≤ t.links.idxOf i := by
      rintro i (rfl | hi)
      · exact hj
      · exact hS i hi
    intro i hi
    rcases List.mem_cons.1 hi with rfl | hi
    · exact hj
    · exact ih hl hS' i hi

/-- A parent and a child that are both on a traverse are neighbours in its upward part, or the
child is in its downward part. -/
theorem IsTraverse.neighbours {base : ι} {ups downs : List ι} {tr : LinkTraverse ι}
    (h : IsTraverse t base ups downs tr) {p c : ι} (hpc : t.parent c = some p)
    (hp : p ∈ tr.links) (hc : c ∈ tr.links) :
    (∃ l l', base :: ups = l ++ c :: p :: l') ∨ c ∈ downs := by
  rw [h.eq, ← List.cons_append, List.mem_append] at hp hc
  refine hc.imp_left fun hc ↦ ?_
  refine (h.ascends.eq_or_le hc hpc).resolve_right fun hle ↦ ?_
  have hlt := t.idxOf_parent_lt hpc
  have hcp : t.links.idxOf c ≤ t.links.idxOf p :=
    hp.elim (hle p) (h.descends.le_idxOf (fun i hi ↦ hle i hi) p)
  omega

end IsTraverse

/-! ### Finding a traverse -/

namespace LinkTraverse

/-- `links.push_back(link)`, counting an upward connection. -/
def push (tr : LinkTraverse ι) (link : ι) (isUpward : Bool) : LinkTraverse ι :=
  ⟨tr.links ++ [link],
    if isUpward then tr.numUpwardConnections + 1 else tr.numUpwardConnections⟩

variable [DecidableEq ι]

/-- The loop over the children in `traverse`, with the traverses it calls: those go downward only
and skip nothing. -/
def traverseChildren (prev : Option ι) : LinkPtr ι → LinkTraverse ι → LinkTraverse ι
  | .null, tr => tr
  | .link child c sibling, tr =>
    traverseChildren prev sibling
      (if some child ≠ prev then traverseChildren none c (tr.push child false) else tr)

/-- `LinkTraverse::traverse`. The first argument bounds the recursion over the ancestors. -/
def traverse (t : LinkTree ι) :
    ℕ → ι → Bool → Bool → Bool → Option ι → LinkTraverse ι → LinkTraverse ι
  | 0, _, _, _, _, _, tr => tr
  | depth + 1, link, doUpward, doDownward, isUpward, prev, tr =>
    let tr := tr.push link isUpward
    let tr := if doUpward then
        (t.parent link).elim tr fun parent ↦
          traverse t depth parent doUpward true true (some link) tr
      else tr
    if doDownward then traverseChildren prev (t.childPtr link) tr else tr

/-- `LinkTraverse::find`. No chain of ancestors is longer than the tree. -/
def find (t : LinkTree ι) (root : ι) (doUpward doDownward : Bool) : LinkTraverse ι :=
  traverse t (t.links.length + 1) root doUpward doDownward false none ⟨[], 0⟩

/-! ### What `find` collects -/

/-- The links of a sibling chain and below, without the sibling `prev`. -/
def skip (prev : Option ι) : LinkPtr ι → List ι
  | .null => []
  | .link i c s => if some i ≠ prev then i :: (c.links ++ skip prev s) else skip prev s

theorem skip_none (ptr : LinkPtr ι) : skip none ptr = ptr.links := by
  induction ptr with
  | null => rfl
  | link i c s _ ihs => rw [skip, if_pos (by simp), ihs, LinkPtr.links_link]

theorem skip_subset (prev : Option ι) (ptr : LinkPtr ι) : skip prev ptr ⊆ ptr.links := by
  induction ptr with
  | null => simp [skip]
  | link i c s _ ihs =>
    intro j hj
    rw [skip] at hj
    split_ifs at hj
    · rcases List.mem_cons.1 hj with rfl | hj
      · simp
      · rcases List.mem_append.1 hj with hj | hj
        · simp [hj]
        · simp [ihs hj]
    · simp [ihs hj]

theorem traverseChildren_eq (prev : Option ι) (ptr : LinkPtr ι) (tr : LinkTraverse ι) :
    traverseChildren prev ptr tr = ⟨tr.links ++ skip prev ptr, tr.numUpwardConnections⟩ := by
  induction ptr generalizing prev tr with
  | null => simp [traverseChildren, skip]
  | link i c s ihc ihs =>
    rw [traverseChildren, ihs, skip]
    split_ifs
    · rw [ihc, skip_none]
      simp [push]
    · rfl

variable {t : LinkTree ι} {prev : Option ι} {ptr : LinkPtr ι}

/-- A child of the parent is the link skipped or is not skipped. -/
theorem eq_or_mem_skip {i : ι} (hi : i ∈ ptr.siblings) : some i = prev ∨ i ∈ skip prev ptr := by
  induction ptr with
  | null => simp at hi
  | link l c s _ ihs =>
    rw [skip]
    rcases List.mem_cons.1 hi with rfl | hi
    · by_cases hprev : some i = prev
      · exact .inl hprev
      · rw [if_pos hprev]
        exact .inr (by simp)
    · refine (ihs hi).imp_right fun h ↦ ?_
      split_ifs
      · simp [h]
      · exact h

/-- What is not skipped is not below the sibling skipped. -/
theorem notMem_below_of_mem_skip {q i : ι} (hptr : t.child.Meets ptr) (hq : q ∈ ptr.siblings)
    (hi : i ∈ skip (some q) ptr) : i ∉ t.below q := by
  induction ptr with
  | null => simp at hq
  | link l c s _ ihs =>
    have hnd : (LinkPtr.link l c s).links.Nodup := hptr.sublist.nodup t.child_nodup
    simp only [LinkPtr.links_link, List.nodup_cons, List.mem_append, not_or,
      List.nodup_append] at hnd
    obtain ⟨⟨-, hls⟩, -, -, hcs⟩ := hnd
    have hbelow : ∀ {x}, x ∈ s.siblings → t.below x ⊆ s.links := by
      intro x hx
      obtain ⟨c', s', hm⟩ := LinkPtr.exists_meets_of_mem_links (LinkPtr.siblings_subset _ hx)
      have hc' : t.childPtr x = c' := t.childPtr_of_meets (hptr.below.2.trans hm)
      intro j hj
      refine hm.sublist.subset ?_
      rw [LinkTree.below, hc'] at hj
      rw [LinkPtr.links_link, ← List.cons_append]
      exact List.mem_append_left _ hj
    rw [skip] at hi
    rcases List.mem_cons.1 hq with rfl | hq
    · -- the sibling skipped is the first one: what remains comes after it
      rw [if_neg (by simp)] at hi
      have his : i ∈ s.links := skip_subset _ _ hi
      rw [LinkTree.below, t.childPtr_of_meets hptr, List.mem_cons, not_or]
      exact ⟨fun h ↦ hls (h ▸ his), fun h ↦ hcs i h i his rfl⟩
    · have hlq : some l ≠ some q := fun h ↦
        hls (Option.some_inj.1 h ▸ LinkPtr.siblings_subset _ hq)
      rw [if_pos hlq] at hi
      have hqs := hbelow hq
      rcases List.mem_cons.1 hi with rfl | hi
      · exact fun h ↦ hls (hqs h)
      · rcases List.mem_append.1 hi with hi | hi
        · exact fun h ↦ hcs i hi i (hqs h) rfl
        · exact ihs hptr.below.2 hq hi

/-- The children of a link that is not skipped are not skipped. -/
theorem children_subset_skip {i : ι} (hptr : t.child.Meets ptr) (hi : i ∈ skip prev ptr) :
    t.children i ⊆ skip prev ptr := by
  induction ptr with
  | null => simp [skip] at hi
  | link l c s _ ihs =>
    intro j hj
    rw [skip] at hi ⊢
    split_ifs at hi ⊢
    · rcases List.mem_cons.1 hi with rfl | hi
      · rw [LinkTree.children, t.childPtr_of_meets hptr] at hj
        simp [LinkPtr.siblings_subset _ hj]
      · rcases List.mem_append.1 hi with hi | hi
        · simp [t.children_subset_of_meets hptr.below.1 hi hj]
        · simp [ihs hptr.below.2 hi hj]
    · exact ihs hptr.below.2 hi hj

/-- The links of a sibling chain and below come after their parents. -/
theorem descends_skip {S : Set ι} {p : ι} (hp : p ∈ S) (hnd : ptr.links.Nodup)
    (hS : ∀ i ∈ skip prev ptr, i ∉ S) (hparent : ∀ q i, ptr.Joins p q i → t.parent i = some q) :
    Descends t S (skip prev ptr) := by
  induction ptr generalizing S p prev with
  | null => trivial
  | link l c s ihc ihs =>
    simp only [LinkPtr.links_link, List.nodup_cons, List.mem_append, not_or,
      List.nodup_append] at hnd
    obtain ⟨⟨hlc, hls⟩, hc, hs, hcs⟩ := hnd
    rw [skip] at hS ⊢
    split_ifs at hS ⊢ with hl
    · have hchild : Descends t (insert l S) c.links := by
        rw [← skip_none]
        refine ihc (Set.mem_insert l S) hc (fun i hi ↦ ?_) fun q i h ↦ hparent q i (.inr (.inl h))
        rw [skip_none] at hi
        rintro (rfl | h)
        · exact hlc hi
        · exact hS i (by simp [hi]) h
      have hsibling : Descends t (insert l S ∪ { i | i ∈ c.links }) (skip prev s) := by
        refine ihs (.inl (Set.mem_insert_of_mem l hp)) hs (fun i hi ↦ ?_) fun q i h ↦
          hparent q i (.inr (.inr h))
        have his : i ∈ s.links := skip_subset _ _ hi
        rintro ((rfl | h) | h)
        · exact hls his
        · exact hS i (by simp [hi]) h
        · exact hcs i h i his rfl
      exact ⟨⟨p, hp, hparent p l (.inl ⟨rfl, rfl⟩)⟩, hS l (by simp),
        descends_append.2 ⟨hchild, hsibling⟩⟩
    · exact ihs hp hs hS fun q i h ↦ hparent q i (.inr (.inr h))

/-- What `traverse` collects from `link`, when `A` holds what was collected before: links below
`prev`, the child it was called from. -/
structure Collects (t : LinkTree ι) (doUpward doDownward : Bool) (prev : Option ι) (A : Set ι)
    (link : ι) (ups downs : List ι) : Prop where
  ascends : Ascends t (link :: ups)
  descends : Descends t (A ∪ { i | i ∈ link :: ups }) downs
  outside : ∀ q, prev = some q → ∀ i ∈ link :: (ups ++ downs), i ∉ t.below q
  /-- Going up ends at the root. -/
  root : doUpward → link ∈ t.links → t.root ∈ link :: ups
  /-- Every child of a collected link is collected, or is `prev`. -/
  children : doDownward → ∀ i ∈ link :: (ups ++ downs), ∀ c ∈ t.children i,
    some c = prev ∨ c ∈ link :: (ups ++ downs)

/-- The loop over the children of `link` completes what was collected above it. -/
theorem Collects.skip {doUpward doDownward : Bool} {A : Set ι} {link : ι} {ups downs : List ι}
    (hA : ∀ i ∈ A, ∃ q, prev = some q ∧ i ∈ t.below q)
    (hprev : ∀ q, prev = some q → t.parent q = some link) (hasc : Ascends t (link :: ups))
    (hdesc : Descends t (A ∪ { i | i ∈ link :: ups }) downs)
    (hout : ∀ i ∈ ups ++ downs, i ∉ t.below link)
    (hroot : doUpward → link ∈ t.links → t.root ∈ link :: ups)
    (hchildren : ∀ i ∈ ups ++ downs, ∀ c ∈ t.children i, c ∈ link :: (ups ++ downs)) :
    Collects t doUpward doDownward prev A link ups
      (downs ++ if doDownward then LinkTraverse.skip prev (t.childPtr link) else []) := by
  have hmeets := t.meets_childPtr link
  have hskip : ∀ q, prev = some q → ∀ i ∈ LinkTraverse.skip prev (t.childPtr link),
      i ∉ t.below q := by
    rintro q rfl i hi
    exact notMem_below_of_mem_skip hmeets (t.mem_children.2 (hprev q rfl)) hi
  have hlow : ∀ i ∈ LinkTraverse.skip prev (t.childPtr link), i ∈ t.below link := fun i hi ↦
    List.mem_cons_of_mem _ (skip_subset _ _ hi)
  refine ⟨hasc, descends_append.2 ⟨hdesc, ?_⟩, ?_, hroot, ?_⟩
  · cases doDownward with
    | false => trivial
    | true =>
      refine descends_skip (p := link) (.inl (.inr (by simp)))
        (hmeets.sublist.nodup t.child_nodup) (fun i hi ↦ ?_)
        fun q i h ↦ t.parent_of_joins_childPtr h
      rintro ((h | h) | h)
      · obtain ⟨q, hq, hi'⟩ := hA i h
        exact hskip q hq i hi hi'
      · rcases List.mem_cons.1 h with rfl | h
        · exact t.notMem_childPtr_self i (skip_subset _ _ hi)
        · exact hout i (List.mem_append_left _ h) (hlow i hi)
      · exact hout i (List.mem_append_right _ h) (hlow i hi)
  · rintro q hq i hi h
    have hbelow : i ∈ t.below link :=
      List.mem_cons_of_mem _ (t.below_subset_of_parent (hprev q hq) h)
    rcases List.mem_cons.1 hi with rfl | hi
    · exact t.notMem_below_of_parent (hprev q hq) h
    · rw [← List.append_assoc] at hi
      rcases List.mem_append.1 hi with hi | hi
      · exact hout i hi hbelow
      · cases doDownward with
        | false => simp at hi
        | true => exact hskip q hq i hi h
  · rintro rfl i hi c hc
    rw [if_pos rfl] at hi ⊢
    rw [← List.append_assoc] at hi ⊢
    rcases List.mem_cons.1 hi with rfl | hi
    · exact (eq_or_mem_skip hc).imp_right fun h ↦
        List.mem_cons_of_mem _ (List.mem_append_right _ h)
    · rcases List.mem_append.1 hi with hi | hi
      · refine .inr ?_
        rcases List.mem_cons.1 (hchildren i hi c hc) with rfl | h
        · simp
        · exact List.mem_cons_of_mem _ (List.mem_append_left _ h)
      · exact .inr (List.mem_cons_of_mem _
          (List.mem_append_right _ (children_subset_skip hmeets hi hc)))

/-- What `traverse` collects. -/
theorem exists_traverse (doUpward : Bool) (depth : ℕ) (link : ι) (doDownward isUpward : Bool)
    (prev : Option ι) (A : Set ι) (tr : LinkTraverse ι) (hdepth : t.links.idxOf link < depth)
    (hA : ∀ i ∈ A, ∃ q, prev = some q ∧ i ∈ t.below q)
    (hprev : ∀ q, prev = some q → t.parent q = some link) :
    ∃ ups downs, traverse t depth link doUpward doDownward isUpward prev tr =
        ⟨tr.links ++ link :: (ups ++ downs),
          (tr.push link isUpward).numUpwardConnections + ups.length⟩ ∧
      Collects t doUpward doDownward prev A link ups downs := by
  induction depth generalizing link doDownward isUpward prev A tr with
  | zero => omega
  | succ depth ih =>
    by_cases hup : doUpward ∧ ∃ p, t.parent link = some p
    · obtain ⟨rfl, p, hp⟩ := hup
      have hlt := t.idxOf_parent_lt hp
      have hA' : ∀ i ∈ insert link A, ∃ q, some link = some q ∧ i ∈ t.below q := by
        rintro i (rfl | hi)
        · exact ⟨i, rfl, by simp [LinkTree.below]⟩
        · obtain ⟨q, hq, hi⟩ := hA i hi
          exact ⟨link, rfl, List.mem_cons_of_mem _ (t.below_subset_of_parent (hprev q hq) hi)⟩
      obtain ⟨ups, downs, htr, hcol⟩ := ih p true true (some link) (insert link A)
        (tr.push link isUpward) (by omega) hA' (fun q hq ↦ by rwa [← Option.some_inj.1 hq])
      refine ⟨p :: ups,
        downs ++ if doDownward then LinkTraverse.skip prev (t.childPtr link) else [], ?_,
        Collects.skip hA hprev (List.isChain_cons_cons.2 ⟨hp, hcol.ascends⟩) ?_ ?_ ?_ ?_⟩
      · rw [traverse, if_pos rfl, hp, Option.elim_some, htr]
        have hcount : ((tr.push link isUpward).push p true).numUpwardConnections + ups.length =
            (tr.push link isUpward).numUpwardConnections + (p :: ups).length := by
          show (tr.push link isUpward).numUpwardConnections + 1 + ups.length = _
          rw [List.length_cons]
          omega
        rw [hcount]
        cases doDownward with
        | false => simp [push]
        | true => simp [push, traverseChildren_eq]
      · refine (congrArg (Descends t · downs) (Set.ext fun j ↦ ?_)).mp hcol.descends
        simp only [Set.mem_union, Set.mem_insert_iff, Set.mem_ofPred_eq, List.mem_cons]
        tauto
      · exact hcol.outside link rfl
      · exact fun _ hlink ↦ List.mem_cons_of_mem _ (hcol.root rfl (t.parent_mem hp).1)
      · intro i hi c hc
        rcases hcol.children rfl i hi c hc with h | h
        · rw [Option.some_inj.1 h]
          simp
        · exact List.mem_cons_of_mem _ h
    · refine ⟨[], [] ++ if doDownward then LinkTraverse.skip prev (t.childPtr link) else [], ?_,
        Collects.skip hA hprev (List.isChain_singleton _) trivial (by simp) (fun h hlink ↦ ?_)
          (by simp)⟩
      · have htr : (if doUpward then (t.parent link).elim (tr.push link isUpward) fun parent ↦
            traverse t depth parent doUpward true true (some link) (tr.push link isUpward)
            else tr.push link isUpward) = tr.push link isUpward := by
          split_ifs with h
          · rw [Option.eq_none_iff_forall_ne_some.2 fun p hp ↦ hup ⟨h, p, hp⟩, Option.elim_none]
          · rfl
        rw [traverse, htr]
        cases doDownward with
        | false => simp [push]
        | true => simp [push, traverseChildren_eq]
      · by_contra hr
        have hne : link ≠ t.root := fun e ↦ hr (by simp [e])
        exact hup ⟨h, t.exists_parent hlink hne⟩

/-- **`find` returns a traverse** from every link, in every mode. Going downward it misses no link
if it starts at the root or also goes up. -/
theorem exists_find {base : ι} (hbase : base ∈ t.links) (doUpward doDownward : Bool) :
    ∃ ups downs, IsTraverse t base ups downs (find t base doUpward doDownward) ∧
      (doDownward → doUpward ∨ base = t.root → ∀ i ∈ t.links, i ∈ base :: (ups ++ downs)) := by
  have hdepth : t.links.idxOf base < t.links.length + 1 :=
    Nat.lt_succ_of_le List.idxOf_le_length
  obtain ⟨ups, downs, htr, hcol⟩ := exists_traverse doUpward _ base doDownward false none ∅
    ⟨[], 0⟩ hdepth (by simp) (by simp)
  refine ⟨ups, downs, ⟨?_, hcol.ascends, ?_⟩, fun hdown hmode ↦ ?_⟩
  · rw [find, htr]
    simp [push]
  · simpa using hcol.descends
  · have hroot : t.root ∈ base :: (ups ++ downs) := by
      rcases hmode with hup | rfl
      · rcases List.mem_cons.1 (hcol.root hup hbase) with h | h
        · simp [h]
        · simp [h]
      · simp
    refine t.parent_induction hroot fun p c hpc hp ↦ ?_
    exact (hcol.children hdown p hp c (t.mem_children.2 hpc)).resolve_left (by simp)

end LinkTraverse

end OpenHRP
