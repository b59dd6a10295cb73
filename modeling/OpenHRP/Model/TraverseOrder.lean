import OpenHRP.Model.LinkPath

/-!
# The order of a traverse

What the passes over a body rely on, said of the two records that `LinkTraverse::find` fills
(`Visits`): no link is missing or comes twice, the upward connections lead from the start to its
successive ancestors, and every later link comes after its parent. The whole tree is visited so
from any link, and the subtree of a link without an upward connection (`find_visits`).
-/

namespace OpenHRP

variable {ι : Type*} [DecidableEq ι] {t : LinkTree ι} {start : ι}

/-- The traverse `tr` visits the links `l` from `start`: each once, the first ones as many as there
are upward connections each followed by its parent, the ones after them each behind its parent. -/
structure Visits (t : LinkTree ι) (start : ι) (l : List ι) (tr : LinkTraverse ι) : Prop where
  nodup : tr.links.Nodup
  mem_iff : ∀ i, i ∈ tr.links ↔ i ∈ l
  first : tr.links[0]? = some start
  up : ∀ k < tr.numUpwardConnections, ∃ c p, tr.links[k]? = some c ∧ tr.links[k + 1]? = some p ∧
    t.parent c = some p
  down : ∀ k i, tr.numUpwardConnections < k → tr.links[k]? = some i →
    ∃ j < k, ∃ p, tr.links[j]? = some p ∧ t.parent i = some p

/-! ### Reading the order off a traverse -/

theorem Descends.nodup {S : Set ι} {l : List ι} (h : Descends t S l) : l.Nodup := by
  induction l generalizing S with
  | nil => exact List.nodup_nil
  | cons i l ih =>
    exact List.nodup_cons.2 ⟨fun hi ↦ h.2.2.notMem hi (Set.mem_insert i S), ih h.2.2⟩

variable {tr : LinkTraverse ι}

theorem IsTraverse.nodup {ups downs : List ι} (h : IsTraverse t start ups downs tr) :
    tr.links.Nodup := by
  rw [h.eq]
  exact List.nodup_append.2 ⟨h.ascends.nodup, h.descends.nodup,
    fun i hi j hj hij ↦ h.descends.notMem hj (hij ▸ hi)⟩

theorem IsTraverse.mem_links {ups downs : List ι} (h : IsTraverse t start ups downs tr)
    (hstart : start ∈ t.links) {i : ι} (hi : i ∈ start :: (ups ++ downs)) : i ∈ t.links := by
  rcases List.mem_cons.1 hi with rfl | hi
  · exact hstart
  · rcases List.mem_append.1 hi with hi | hi
    · exact h.ascends.mem_links hi
    · obtain ⟨p, -, hp⟩ := h.descends.exists_parent hi
      exact (t.parent_mem hp).2

/-- The parent of a link of a downward part stands before it, in the part or in front of it. -/
theorem Descends.exists_parent_before {A l : List ι} (h : Descends t { i | i ∈ A } l) {k : ℕ}
    {i : ι} (hk : A.length ≤ k) (hi : (A ++ l)[k]? = some i) :
    ∃ j < k, ∃ p, (A ++ l)[j]? = some p ∧ t.parent i = some p := by
  rw [List.getElem?_append_right hk] at hi
  obtain ⟨l₁, l₂, rfl, hlen⟩ : ∃ l₁ l₂, l = l₁ ++ i :: l₂ ∧ l₁.length = k - A.length := by
    obtain ⟨hlt, rfl⟩ := List.getElem?_eq_some_iff.1 hi
    exact ⟨l.take (k - A.length), l.drop (k - A.length + 1),
      by rw [List.getElem_cons_drop, List.take_append_drop], by simp; omega⟩
  obtain ⟨p, hp, hpi⟩ := (descends_append.1 h).2.1
  have hmem : p ∈ A ++ l₁ := List.mem_append.2 hp
  obtain ⟨j, hj, rfl⟩ := List.getElem_of_mem hmem
  refine ⟨j, ?_, (A ++ l₁)[j], ?_, hpi⟩
  · rw [List.length_append] at hj
    omega
  · rw [← List.append_assoc, List.getElem?_append_left hj, List.getElem?_eq_getElem hj]

theorem IsTraverse.visits {ups downs l : List ι} (h : IsTraverse t start ups downs tr)
    (hl : ∀ i, i ∈ start :: (ups ++ downs) ↔ i ∈ l) : Visits t start l tr := by
  refine ⟨h.nodup, ?_, ?_, fun k hk ↦ ?_, fun k i hk hi ↦ ?_⟩ <;> rw [h.eq] at *
  · exact hl
  · rfl
  · -- an upward connection lies within the ascending part
    have hlt : k + 1 < (start :: ups).length := Nat.succ_lt_succ hk
    refine ⟨(start :: ups)[k], (start :: ups)[k + 1], ?_, ?_,
      List.isChain_iff_getElem.1 h.ascends k hlt⟩
    · rw [← List.cons_append, List.getElem?_append_left (by omega), List.getElem?_eq_getElem]
    · rw [← List.cons_append, List.getElem?_append_left hlt, List.getElem?_eq_getElem]
  · exact h.descends.exists_parent_before hk hi

/-- The upward connections of a traverse over the whole tree end at the root. -/
theorem Visits.root {l : List ι} {tr : LinkTraverse ι} (h : Visits t start l tr)
    (hroot : t.root ∈ l) : tr.links[tr.numUpwardConnections]? = some t.root := by
  obtain ⟨k, hk⟩ := List.mem_iff_getElem?.1 ((h.mem_iff _).2 hroot)
  rcases lt_trichotomy k tr.numUpwardConnections with hlt | rfl | hlt
  · obtain ⟨c, p, hc, -, hp⟩ := h.up k hlt
    obtain rfl : c = t.root := Option.some_inj.1 (hc.symm.trans hk)
    exact absurd rfl (t.ne_root_of_parent hp)
  · exact hk
  · obtain ⟨-, -, p, -, hp⟩ := h.down k t.root hlt hk
    exact absurd rfl (t.ne_root_of_parent hp)

/-! ### What `find` visits -/

namespace LinkTraverse

/-- Downward only, `find` lists a link and what is below it, in the order of the tree. -/
theorem find_downward (t : LinkTree ι) (start : ι) :
    find t start false true = ⟨t.below start, 0⟩ := by
  rw [find, traverse, if_neg Bool.false_ne_true, if_pos rfl, traverseChildren_eq, skip_none]
  rfl

/-- **A traverse visits every link once**, parents first: both ways the whole tree, up to the root
and from there down, and downward only the subtree of the start. -/
theorem find_visits (hstart : start ∈ t.links) :
    Visits t start t.links (find t start true true) ∧
      (find t start true true).links[(find t start true true).numUpwardConnections]? =
        some t.root ∧
      Visits t start (t.below start) (find t start false true) ∧
      (find t start false true).numUpwardConnections = 0 := by
  obtain ⟨ups, downs, htr, hall⟩ := exists_find hstart true true
  have hup : Visits t start t.links (find t start true true) :=
    htr.visits fun i ↦ ⟨fun hi ↦ htr.mem_links hstart hi, hall rfl (.inl rfl) i⟩
  obtain ⟨ups', downs', htr', -⟩ := exists_find hstart false true
  have hlist : t.below start = start :: (ups' ++ downs') :=
    congrArg LinkTraverse.links ((find_downward t start).symm.trans htr'.eq)
  refine ⟨hup, hup.root t.root_mem, htr'.visits fun i ↦ by rw [hlist], ?_⟩
  rw [find_downward]

/-- From link 2 of a tree of four: up to the root 0, then down the other side, link 1 and the
link 3 below it; downward only, nothing but link 2. -/
theorem find_visits_treeOfFour :
    find (⟨0, .link 1 (.link 3 .null .null) (.link 2 .null .null), by decide⟩ : LinkTree (Fin 4))
        2 true true = ⟨[2, 0, 1, 3], 1⟩ ∧
      Visits (⟨0, .link 1 (.link 3 .null .null) (.link 2 .null .null), by decide⟩ :
          LinkTree (Fin 4)) 2 [2]
        (find ⟨0, .link 1 (.link 3 .null .null) (.link 2 .null .null), by decide⟩ 2 false true) :=
  ⟨by decide, (find_visits (by decide)).2.2.1⟩

end LinkTraverse

end OpenHRP
