import OpenHRP.Model.LinkPath

/-!
# Simple paths in a link tree

Between two links of a tree there is one way that uses no link twice, going from links to their
parents or children (`IsSimplePath.eq`), and `LinkPath::find` returns it: first up, then down
(`LinkPath.find_spec`). Where there is no way, the records that the search pushes and counts are
empty again.
-/

namespace OpenHRP

variable {ι : Type*} [DecidableEq ι] {t : LinkTree ι} {base endLink : ι}

/-- One of the links is the parent of the other. -/
def LinkTree.Adjacent (t : LinkTree ι) (i j : ι) : Prop :=
  t.parent i = some j ∨ t.parent j = some i

/-- A way from `base` to `endLink` on which no link comes twice. -/
structure IsSimplePath (t : LinkTree ι) (base endLink : ι) (l : List ι) : Prop where
  chain : l.IsChain t.Adjacent
  nodup : l.Nodup
  head : l.head? = some base
  last : l.getLast? = some endLink

/-! ### A simple path goes up, then down -/

variable {l : List ι}

theorem Ascends.adjacent (h : Ascends t l) : l.IsChain t.Adjacent :=
  List.IsChain.imp (fun _ _ hp ↦ .inl hp) h

theorem Chains.adjacent (h : Chains t l) : l.IsChain t.Adjacent :=
  List.IsChain.imp (fun _ _ hp ↦ .inr hp) h

variable {ups downs : List ι}

theorem IsPath.isSimplePath {top : ι} (h : IsPath t base endLink ups top downs) :
    IsSimplePath t base endLink (ups ++ top :: downs) := by
  refine ⟨?_, h.nodup, ?_, ?_⟩
  · have hasc := h.ascends.adjacent
    rw [List.isChain_append] at hasc ⊢
    refine ⟨hasc.1, h.descends.adjacent, fun i hi j hj ↦ hasc.2.2 i hi j ?_⟩
    simpa using hj
  · have hhead := h.head
    rcases ups with _ | ⟨u, l⟩ <;> simpa using hhead
  · rw [List.getLast?_append, h.last, Option.some_or]

/-- On a chain without repetitions, a step down is not followed by a step up. -/
theorem exists_turn (hl : l ≠ []) (hchain : l.IsChain t.Adjacent) (hnd : l.Nodup) :
    ∃ ups top downs, l = ups ++ top :: downs ∧ Ascends t (ups ++ [top]) ∧
      Chains t (top :: downs) := by
  induction l with
  | nil => exact absurd rfl hl
  | cons c l ih =>
    rcases l with _ | ⟨d, r⟩
    · exact ⟨[], c, [], rfl, List.isChain_singleton _, List.isChain_singleton _⟩
    · obtain ⟨hcd, hchain⟩ := List.isChain_cons_cons.1 hchain
      obtain ⟨hc, hnd⟩ := List.nodup_cons.1 hnd
      obtain ⟨ups, top, downs, heq, hasc, hdesc⟩ := ih (List.cons_ne_nil _ _) hchain hnd
      rcases hcd with hup | hdown
      · refine ⟨c :: ups, top, downs, by rw [heq, List.cons_append], ?_, hdesc⟩
        rcases ups with _ | ⟨u, ups⟩
        · obtain ⟨rfl, -⟩ := List.cons_eq_cons.1 heq
          exact List.isChain_cons_cons.2 ⟨hup, hasc⟩
        · obtain ⟨rfl, -⟩ := List.cons_eq_cons.1 heq
          exact List.isChain_cons_cons.2 ⟨hup, hasc⟩
      · rcases ups with _ | ⟨u, ups⟩
        · obtain ⟨rfl, rfl⟩ := List.cons_eq_cons.1 heq
          exact ⟨[], c, d :: r, rfl, List.isChain_singleton _,
            List.isChain_cons_cons.2 ⟨hdown, hdesc⟩⟩
        · -- the parent of `d` comes next, and it is `c`
          obtain ⟨rfl, rfl⟩ := List.cons_eq_cons.1 heq
          have hmem : c ∈ d :: (ups ++ top :: downs) := by
            rcases ups with _ | ⟨v, ups⟩
            · have hp : t.parent d = some top := (List.isChain_cons_cons.1 hasc).1
              simp [Option.some_inj.1 (hdown.symm.trans hp)]
            · have hp : t.parent d = some v := (List.isChain_cons_cons.1 hasc).1
              simp [Option.some_inj.1 (hdown.symm.trans hp)]
          exact absurd hmem hc

/-- A simple path is a path: nothing on the way up has the end below it. -/
theorem IsSimplePath.exists_isPath (h : IsSimplePath t base endLink l) :
    ∃ ups top downs, l = ups ++ top :: downs ∧ IsPath t base endLink ups top downs := by
  have hl : l ≠ [] := by
    rintro rfl
    cases h.head
  obtain ⟨ups, top, downs, rfl, hasc, hdesc⟩ := exists_turn hl h.chain h.nodup
  have hlast : (top :: downs).getLast? = some endLink := by
    have hlast := h.last
    rwa [List.getLast?_append_of_ne_nil _ (List.cons_ne_nil _ _)] at hlast
  refine ⟨ups, top, downs, rfl, hasc, hdesc, ?_, hlast, fun i hi hend ↦ ?_⟩
  · have hhead := h.head
    rcases ups with _ | ⟨u, ups⟩ <;> simpa using hhead
  · -- the end is below the last link `u` of the way up, which is a child of the turning link
    obtain ⟨l, u, rfl⟩ : ∃ l u, ups = l ++ [u] :=
      ⟨_, _, (List.dropLast_append_getLast (List.ne_nil_of_mem hi)).symm⟩
    have hu : t.parent u = some top := by
      rw [List.append_assoc, Ascends, List.isChain_append] at hasc
      exact (List.isChain_cons_cons.1 hasc.2.1).1
    have hendu : endLink ∈ t.below u := by
      refine t.mem_below_trans hend ?_
      obtain ⟨l₁, l₂, hsplit⟩ := List.append_of_mem hi
      have hup : Ascends t (i :: (l₂ ++ [top])) := by
        rw [hsplit, List.append_assoc, Ascends, List.isChain_append] at hasc
        exact hasc.2.1
      have hmem : u ∈ i :: l₂ := by
        have hlast' := congrArg List.getLast? hsplit
        rw [List.getLast?_concat, List.getLast?_append_of_ne_nil _ (List.cons_ne_nil _ _)] at hlast'
        exact List.mem_of_getLast? hlast'.symm
      exact hup.mem_below (List.mem_append_left [top] hmem)
    rcases downs with _ | ⟨d, r⟩
    · obtain rfl : top = endLink := by simpa using hlast
      exact t.notMem_below_of_parent hu hendu
    · have hd : t.parent d = some top := (List.isChain_cons_cons.1 hdesc).1
      have hendd : endLink ∈ t.below d := hdesc.last_mem_below hlast (by simp)
      have hud : u = d := t.eq_of_mem_below_children hu hd hendu hendd
      exact (List.nodup_append.1 h.nodup).2.2 u (by simp) d (by simp) hud

theorem Ascends.eq {c top : ι} {l l' : List ι} (h : Ascends t (c :: l)) (h' : Ascends t (c :: l'))
    (hlast : (c :: l).getLast? = some top) (hlast' : (c :: l').getLast? = some top) : l = l' := by
  induction l generalizing c l' with
  | nil =>
    obtain rfl : c = top := by simpa using hlast
    rcases l' with _ | ⟨p, r⟩
    · rfl
    · rw [List.getLast?_cons_cons] at hlast'
      exact absurd (h'.idxOf_lt (List.mem_of_getLast? hlast')) (lt_irrefl _)
  | cons p l ih =>
    obtain ⟨hp, hl⟩ := List.isChain_cons_cons.1 h
    rw [List.getLast?_cons_cons] at hlast
    rcases l' with _ | ⟨p', l'⟩
    · obtain rfl : c = top := by simpa using hlast'
      exact absurd (h.idxOf_lt (List.mem_of_getLast? hlast)) (lt_irrefl _)
    · obtain ⟨hp', hl'⟩ := List.isChain_cons_cons.1 h'
      obtain rfl : p = p' := Option.some_inj.1 (hp.symm.trans hp')
      rw [List.getLast?_cons_cons] at hlast'
      rw [ih hl hl' hlast hlast']

/-- A link has one way to a link above it. -/
theorem Ascends.eq_of_ends {l l' : List ι} {c top : ι} (h : Ascends t l) (h' : Ascends t l')
    (hhead : l.head? = some c) (hhead' : l'.head? = some c) (hlast : l.getLast? = some top)
    (hlast' : l'.getLast? = some top) : l = l' := by
  obtain ⟨r, rfl⟩ := List.head?_eq_some_iff.1 hhead
  obtain ⟨r', rfl⟩ := List.head?_eq_some_iff.1 hhead'
  rw [h.eq h' hlast hlast']

theorem IsPath.eq (hbase : base ∈ t.links) {ups ups' downs downs' : List ι} {top top' : ι}
    (h : IsPath t base endLink ups top downs) (h' : IsPath t base endLink ups' top' downs') :
    ups = ups' ∧ top = top' ∧ downs = downs' := by
  obtain rfl : top = top' := h.isMeet.eq hbase h'.isMeet
  have hups : ups ++ [top] = ups' ++ [top] :=
    h.ascends.eq_of_ends h'.ascends h.head h'.head (List.getLast?_concat ..)
      (List.getLast?_concat ..)
  -- the way down is a way up from the end
  have hdowns : (top :: downs).reverse = (top :: downs').reverse :=
    Ascends.eq_of_ends (List.isChain_reverse.2 h.descends) (List.isChain_reverse.2 h'.descends)
      (List.head?_reverse.trans h.last) (List.head?_reverse.trans h'.last)
      (List.getLast?_reverse.trans List.head?_cons) (List.getLast?_reverse.trans List.head?_cons)
  exact ⟨List.append_cancel_right hups, rfl, (List.cons.inj (List.reverse_injective hdowns)).2⟩

/-- The path in the other direction. -/
theorem IsPath.reverse {top : ι} (h : IsPath t base endLink ups top downs) :
    IsPath t endLink base downs.reverse top ups.reverse := by
  have hdowns : downs.reverse ++ [top] = (top :: downs).reverse := List.reverse_cons.symm
  have hups : top :: ups.reverse = (ups ++ [top]).reverse := List.reverse_concat.symm
  refine ⟨?_, ?_, ?_, ?_, fun i hi ↦ h.base_notMem (List.mem_reverse.1 hi)⟩
  · rw [hdowns]
    exact List.isChain_reverse.2 h.descends
  · rw [hups]
    exact List.isChain_reverse.2 h.ascends
  · rw [hdowns, List.head?_reverse, h.last]
  · rw [hups, List.getLast?_reverse, h.head]

/-- **A tree has one simple path** between two links. -/
theorem IsSimplePath.eq (hbase : base ∈ t.links) {l l' : List ι} (h : IsSimplePath t base endLink l)
    (h' : IsSimplePath t base endLink l') : l = l' := by
  obtain ⟨ups, top, downs, rfl, hpath⟩ := h.exists_isPath
  obtain ⟨ups', top', downs', rfl, hpath'⟩ := h'.exists_isPath
  obtain ⟨rfl, rfl, rfl⟩ := hpath.eq hbase hpath'
  rfl

omit [DecidableEq ι] in
theorem isChain_getElem? {R : ι → ι → Prop} (h : l.IsChain R) {k : ℕ} {i j : ι}
    (hi : l[k]? = some i) (hj : l[k + 1]? = some j) : R i j := by
  obtain ⟨hk, rfl⟩ := List.getElem?_eq_some_iff.1 hi
  obtain ⟨hk', rfl⟩ := List.getElem?_eq_some_iff.1 hj
  exact List.isChain_iff_getElem.1 h k hk'

/-- The connections of a path: the first ones go up, the others down. -/
theorem IsPath.connection {top : ι} (h : IsPath t base endLink ups top downs) {k : ℕ} {i j : ι}
    (hi : (ups ++ top :: downs)[k]? = some i) (hj : (ups ++ top :: downs)[k + 1]? = some j) :
    if k < ups.length then t.parent i = some j else t.parent j = some i := by
  split
  · next hk =>
    have hfront {m : ℕ} (hm : m ≤ ups.length) :
        (ups ++ [top])[m]? = (ups ++ top :: downs)[m]? := by
      rw [List.getElem?_append, List.getElem?_append]
      split
      · rfl
      · rw [show m - ups.length = 0 by omega]
        rfl
    exact isChain_getElem? h.ascends ((hfront hk.le).trans hi) ((hfront hk).trans hj)
  · next hk =>
    rw [List.getElem?_append_right (by omega)] at hi hj
    rw [show k + 1 - ups.length = k - ups.length + 1 by omega] at hj
    exact isChain_getElem? h.descends hi hj

/-! ### What the search leaves -/

namespace LinkPath

/-- Without the end in the tree, the search takes back what it has pushed. -/
theorem findPathSub_of_notMem_links (hend : endLink ∉ t.links) {depth : ℕ} {link : ι}
    (hlink : link ∈ t.links) (prev : Option ι) (isUpward : Bool) (tr : LinkTraverse ι) :
    findPathSub t endLink depth link prev isUpward tr = (false, tr) := by
  induction depth generalizing link prev isUpward tr with
  | zero => rfl
  | succ depth ih =>
    have hne : link ≠ endLink := fun h ↦ hend (h ▸ hlink)
    have hchildren : ∀ c ∈ (t.children link).filter fun child ↦ some child ≠ prev,
        findPathSub t endLink depth c (some link) false (tr.push link isUpward) =
          (false, tr.push link isUpward) := fun c hc ↦
      ih (t.parent_mem (t.mem_children.1 (List.mem_of_mem_filter hc))).2 _ _ _
    have hparent : ∀ p ∈ (t.parent link).toList.filter fun parent ↦ some parent ≠ prev,
        findPathSub t endLink depth p (some link) true (tr.push link isUpward) =
          (false, tr.push link isUpward) := fun p hp ↦
      ih (t.parent_mem (Option.mem_toList.1 (List.mem_of_mem_filter hp))).1 _ _ _
    rw [findPathSub, if_neg hne]
    simp only [tryEach_of_fails hchildren, tryEach_of_fails hparent, pop_push]
    simp

/-- **`find` returns the simple path** from one link to another: its first connections lead from
children to parents, as many as are counted, and the others from parents to children. It fails
exactly when the end is not in the tree of the base, and leaves nothing then. -/
theorem find_spec (t : LinkTree ι) (hbase : base ∈ t.links) (endLink : ι) :
    ((find t base endLink).1 = true ↔ endLink ∈ t.links) ∧
      ((find t base endLink).1 = true →
        IsSimplePath t base endLink (find t base endLink).2.links ∧
          (∀ l, IsSimplePath t base endLink l → l = (find t base endLink).2.links) ∧
          (find t base endLink).2.numUpwardConnections <
            (find t base endLink).2.links.length ∧
          ∀ k i j, (find t base endLink).2.links[k]? = some i →
            (find t base endLink).2.links[k + 1]? = some j →
              if k < (find t base endLink).2.numUpwardConnections then t.parent i = some j
              else t.parent j = some i) ∧
      ((find t base endLink).1 = false → (find t base endLink).2 = ⟨[], 0⟩) := by
  by_cases hend : endLink ∈ t.links
  · obtain ⟨ups, top, downs, hfind, hpath⟩ := exists_find hbase hend
    rw [hfind]
    refine ⟨iff_of_true rfl hend, fun _ ↦ ⟨hpath.isSimplePath, fun l hl ↦ ?_, by simp, ?_⟩,
      fun h ↦ absurd h.symm Bool.false_ne_true⟩
    · exact hl.eq hbase hpath.isSimplePath
    · exact fun k i j hi hj ↦ hpath.connection hi hj
  · have hfind : find t base endLink = (false, ⟨[], 0⟩) := by
      rw [find, findPathSub_of_notMem_links hend hbase, if_neg Bool.false_ne_true]
    rw [hfind]
    exact ⟨iff_of_false Bool.false_ne_true hend, fun h ↦ absurd h Bool.false_ne_true,
      fun _ ↦ rfl⟩

/-- From link 2 up to link 1 and down to link 3. -/
theorem find_spec_treeOfThree :
    find (⟨1, .link 2 .null (.link 3 .null .null), by decide⟩ : LinkTree (Fin 4)) 2 3 =
        (true, ⟨[2, 1, 3], 1⟩) ∧
      ((find (⟨1, .link 2 .null (.link 3 .null .null), by decide⟩ : LinkTree (Fin 4))
        2 3).1 = true ↔
        3 ∈ (⟨1, .link 2 .null (.link 3 .null .null), by decide⟩ : LinkTree (Fin 4)).links) :=
  ⟨by decide, (find_spec _ (by decide) 3).1⟩

end LinkPath

end OpenHRP
