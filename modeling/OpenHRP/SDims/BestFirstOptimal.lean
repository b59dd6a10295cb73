import OpenHRP.Foundations.Literals
import OpenHRP.Foundations.WeightedPath
import OpenHRP.SDims.BestFirstSearch
import Mathlib.Algebra.Order.Group.Int
import Mathlib.Data.Fintype.EquivFin

/-!
# Best-first search finds the cheapest goal

The nodes that have been opened and the active ones are the live ones. A state has at most one live
node, which is the cheapest of its nodes (`Searching`); nothing that is active is cheaper than what
has been opened, because nodes are opened in the order of their costs and all edges cost something.
So a node that is removed has not been opened, and nothing dies with it.

When no node is active any more, the live nodes are the opened ones, which bound the costs of all
paths from below (`search_finds_best`).
-/

namespace OpenHRP

/-- `same_state` is equality of states. -/
def SearchProblem.ComparesStates {S K : Type*} (problem : SearchProblem S K) : Prop :=
  ∀ s s', problem.sameState s s' = true ↔ s = s'

/-! ### The queue -/

namespace DpQueue

variable {S K : Type*}

/-- The nodes, from the smaller ones to the larger ones, and whether they are active. -/
def toList : DpQueue S K → List (DpNode S K × Bool)
  | nil => []
  | node n active smallerChild largerChild =>
    smallerChild.toList ++ (n, active) :: largerChild.toList

variable [LinearOrder K]

/-- The queue is a sorted tree. -/
def Sorted : DpQueue S K → Prop
  | nil => True
  | node n _ smallerChild largerChild =>
    (∀ x ∈ smallerChild.toList, x.1.notSmaller n = false) ∧
      (∀ x ∈ largerChild.toList, x.1.notSmaller n = true) ∧
      smallerChild.Sorted ∧ largerChild.Sorted

theorem mem_addQueue (q : DpNode S K) (t : DpQueue S K) (x : DpNode S K × Bool) :
    x ∈ (t.addQueue q).toList ↔ x = (q, true) ∨ x ∈ t.toList := by
  induction t with
  | nil => simp [addQueue, toList]
  | node n active smallerChild largerChild ihs ihl =>
    rw [addQueue]
    split
    · simp only [toList, List.mem_append, List.mem_cons, ihl]
      tauto
    · simp only [toList, List.mem_append, List.mem_cons, ihs]
      tauto

variable {t : DpQueue S K}

theorem Sorted.addQueue (q : DpNode S K) (h : t.Sorted) :
    (t.addQueue q).Sorted := by
  induction t with
  | nil => exact ⟨by simp [toList], by simp [toList], trivial, trivial⟩
  | node n active smallerChild largerChild ihs ihl =>
    obtain ⟨hsmaller, hlarger, hs, hl⟩ := h
    rw [DpQueue.addQueue]
    split
    · rename_i hq
      refine ⟨hsmaller, fun x hx ↦ ?_, hs, ihl hl⟩
      obtain rfl | hx := (mem_addQueue q largerChild x).1 hx
      · exact hq
      · exact hlarger x hx
    · rename_i hq
      refine ⟨fun x hx ↦ ?_, hlarger, ihs hs, hl⟩
      obtain rfl | hx := (mem_addQueue q smallerChild x).1 hx
      · exact Bool.not_eq_true _ ▸ hq
      · exact hsmaller x hx

omit [LinearOrder K] in
theorem mem_deactivate (ids : List ℕ) (t : DpQueue S K) (x : DpNode S K × Bool) :
    x ∈ (t.deactivate ids).toList ↔
      ∃ active, (x.1, active) ∈ t.toList ∧ x.2 = (active && x.1.id ∉ ids) := by
  induction t with
  | nil => simp [deactivate, toList]
  | node n active smallerChild largerChild ihs ihl =>
    obtain ⟨m, b⟩ := x
    simp only [deactivate, toList, List.mem_append, List.mem_cons, ihs, ihl, Prod.mk.injEq]
    constructor
    · rintro (⟨c, hc, hb⟩ | ⟨rfl, hb⟩ | ⟨c, hc, hb⟩)
      · exact ⟨c, .inl hc, hb⟩
      · exact ⟨active, .inr (.inl ⟨rfl, rfl⟩), hb⟩
      · exact ⟨c, .inr (.inr hc), hb⟩
    · rintro ⟨c, hc | ⟨rfl, rfl⟩ | hc, hb⟩
      · exact .inl ⟨c, hc, hb⟩
      · exact .inr (.inl ⟨rfl, hb⟩)
      · exact .inr (.inr ⟨c, hc, hb⟩)

theorem Sorted.deactivate (ids : List ℕ) (h : t.Sorted) :
    (t.deactivate ids).Sorted := by
  induction t with
  | nil => trivial
  | node n active smallerChild largerChild ihs ihl =>
    obtain ⟨hsmaller, hlarger, hs, hl⟩ := h
    refine ⟨fun x hx ↦ ?_, fun x hx ↦ ?_, ihs hs, ihl hl⟩
    · obtain ⟨c, hc, -⟩ := (mem_deactivate ids smallerChild x).1 hx
      exact hsmaller (x.1, c) hc
    · obtain ⟨c, hc, -⟩ := (mem_deactivate ids largerChild x).1 hx
      exact hlarger (x.1, c) hc

section

omit [LinearOrder K]

theorem first_eq_none (p : DpNode S K → Bool → Bool) (t : DpQueue S K) :
    t.first p = none ↔ ∀ x ∈ t.toList, p x.1 x.2 = false := by
  induction t with
  | nil => simp [first, toList]
  | node n active smallerChild largerChild ihs ihl =>
    simp only [first, toList, List.mem_append, List.mem_cons]
    cases hs : smallerChild.first p with
    | some ret =>
      have hne : ¬∀ x ∈ smallerChild.toList, p x.1 x.2 = false := by
        rw [← ihs, hs]
        exact Option.some_ne_none ret
      exact iff_of_false (Option.some_ne_none ret) fun h ↦ hne fun x hx ↦ h x (.inl hx)
    | none =>
      have hnone := ihs.1 hs
      dsimp only
      cases hp : p n active with
      | true =>
        refine iff_of_false (Option.some_ne_none n) fun h ↦ ?_
        rw [h (n, active) (.inr (.inl rfl))] at hp
        cases hp
      | false =>
        rw [if_neg Bool.false_ne_true, ihl]
        refine ⟨fun h x hx ↦ ?_, fun h x hx ↦ h x (.inr (.inr hx))⟩
        obtain hx | rfl | hx := hx
        · exact hnone x hx
        · exact hp
        · exact h x hx

theorem mem_of_first {p : DpNode S K → Bool → Bool} {n : DpNode S K}
    (h : t.first p = some n) : ∃ active, (n, active) ∈ t.toList ∧ p n active = true := by
  induction t with
  | nil => cases h
  | node m active smallerChild largerChild ihs ihl =>
    simp only [toList, List.mem_append, List.mem_cons]
    rw [first] at h
    split at h
    · rename_i ret hs
      obtain ⟨b, hb, hp⟩ := ihs (hs.trans h)
      exact ⟨b, .inl hb, hp⟩
    · split at h
      · rename_i hp
        obtain rfl := Option.some.inj h
        exact ⟨active, .inr (.inl rfl), hp⟩
      · obtain ⟨b, hb, hp⟩ := ihl h
        exact ⟨b, .inr (.inr hb), hp⟩

end

/-- Of the nodes that meet a condition, the first one has the smallest key. -/
theorem Sorted.first_le {p : DpNode S K → Bool → Bool} (ht : t.Sorted) {n : DpNode S K}
    (h : t.first p = some n) {x : DpNode S K × Bool} (hx : x ∈ t.toList) (hp : p x.1 x.2 = true)
    {k l : K} (hk : n.totalAstarCost = some k) (hl : x.1.totalAstarCost = some l) : k ≤ l := by
  induction t with
  | nil => cases h
  | node m active smallerChild largerChild ihs ihl =>
    obtain ⟨hsmaller, hlarger, hs, hlS⟩ := ht
    rw [first] at h
    simp only [toList, List.mem_append, List.mem_cons] at hx
    -- a larger node is not smaller than the root
    have hroot : x ∈ largerChild.toList → ∃ r, m.totalAstarCost = some r ∧ r ≤ l := by
      intro hx
      have hle := hlarger x hx
      rw [DpNode.notSmaller, hl] at hle
      cases hm : m.totalAstarCost with
      | none => simp [hm] at hle
      | some r => exact ⟨r, rfl, by simpa [hm] using hle⟩
    split at h
    · rename_i ret hret
      have hfirst := hret.trans h
      obtain ⟨b, hb, -⟩ := mem_of_first hfirst
      have hlt : ∀ r, m.totalAstarCost = some r → k < r := by
        intro r hr
        have := hsmaller _ hb
        simpa [DpNode.notSmaller, hk, hr] using this
      obtain hx | rfl | hx := hx
      · exact ihs hs hfirst hx
      · exact (hlt l hl).le
      · obtain ⟨r, hr, hle⟩ := hroot hx
        exact (hlt r hr).le.trans hle
    · rename_i hnone
      have hout : x ∉ smallerChild.toList := fun hx ↦ by
        rw [(first_eq_none p smallerChild).1 hnone x hx] at hp
        cases hp
      split at h
      · obtain rfl := Option.some.inj h
        obtain hx | rfl | hx := hx
        · exact absurd hx hout
        · rw [hk] at hl
          exact (Option.some.inj hl).le
        · obtain ⟨r, hr, hle⟩ := hroot hx
          rw [hk] at hr
          exact (Option.some.inj hr).le.trans hle
      · rename_i hpm
        obtain hx | rfl | hx := hx
        · exact absurd hx hout
        · exact absurd hp hpm
        · exact ihl hlS h hx

end DpQueue

/-! ### The search tree -/

namespace DpTree

variable {S K : Type*}

/-- The nodes of a tree. -/
def nodes : DpTree S K → List (DpNode S K)
  | nil => []
  | node n child brother => n :: (child.nodes ++ brother.nodes)

/-- Only nodes with a property have children. -/
def ChildrenOnly (p : DpNode S K → Prop) : DpTree S K → Prop
  | nil => True
  | node n child brother => (child ≠ nil → p n) ∧ child.ChildrenOnly p ∧ brother.ChildrenOnly p

theorem mem_addChild (id : ℕ) (n : DpNode S K) (t : DpTree S K) (x : DpNode S K) :
    x ∈ (t.addChild id n).nodes ↔ x ∈ t.nodes ∨ x = n ∧ ∃ m ∈ t.nodes, m.id = id := by
  induction t with
  | nil => simp [addChild, nodes]
  | node m child brother ihc ihb =>
    rw [addChild]
    split
    · rename_i hid
      simp only [nodes, List.mem_cons, List.mem_append, List.nil_append]
      constructor
      · rintro (rfl | (rfl | hx) | hx)
        · exact .inl (.inl rfl)
        · exact .inr ⟨rfl, m, .inl rfl, hid⟩
        · exact .inl (.inr (.inl hx))
        · exact .inl (.inr (.inr hx))
      · rintro ((rfl | hx | hx) | ⟨rfl, -⟩)
        · exact .inl rfl
        · exact .inr (.inl (.inr hx))
        · exact .inr (.inr hx)
        · exact .inr (.inl (.inl rfl))
    · rename_i hid
      simp only [nodes, List.mem_cons, List.mem_append, ihc, ihb]
      constructor
      · rintro (rfl | (hx | ⟨rfl, k, hk, hkid⟩) | (hx | ⟨rfl, k, hk, hkid⟩))
        · exact .inl (.inl rfl)
        · exact .inl (.inr (.inl hx))
        · exact .inr ⟨rfl, k, .inr (.inl hk), hkid⟩
        · exact .inl (.inr (.inr hx))
        · exact .inr ⟨rfl, k, .inr (.inr hk), hkid⟩
      · rintro ((rfl | hx | hx) | ⟨rfl, k, (rfl | hk | hk), hkid⟩)
        · exact .inl rfl
        · exact .inr (.inl (.inl hx))
        · exact .inr (.inr (.inl hx))
        · exact absurd hkid hid
        · exact .inr (.inl (.inr ⟨rfl, k, hk, hkid⟩))
        · exact .inr (.inr (.inr ⟨rfl, k, hk, hkid⟩))

theorem ChildrenOnly.addChild {p : DpNode S K → Prop} {t : DpTree S K} (h : t.ChildrenOnly p)
    {id : ℕ} (n : DpNode S K) (hid : ∀ m ∈ t.nodes, m.id = id → p m) :
    (t.addChild id n).ChildrenOnly p := by
  induction t with
  | nil => trivial
  | node m child brother ihc ihb =>
    obtain ⟨hm, hc, hb⟩ := h
    rw [DpTree.addChild]
    split
    · rename_i hmid
      exact ⟨fun _ ↦ hid m (.head _) hmid, ⟨fun h ↦ absurd rfl h, trivial, hc⟩, hb⟩
    · refine ⟨fun hne ↦ hm fun hnil ↦ hne ?_, ihc hc fun k hk ↦ ?_, ihb hb fun k hk ↦ ?_⟩
      · rw [hnil]
        rfl
      · exact hid k (.tail _ (List.mem_append_left _ hk))
      · exact hid k (.tail _ (List.mem_append_right _ hk))

theorem ChildrenOnly.mono {p q : DpNode S K → Prop} {t : DpTree S K} (h : t.ChildrenOnly p)
    (hpq : ∀ n, p n → q n) : t.ChildrenOnly q := by
  induction t with
  | nil => trivial
  | node m child brother ihc ihb =>
    exact ⟨fun hne ↦ hpq m (h.1 hne), ihc h.2.1, ihb h.2.2⟩

section Best

variable [LinearOrder K] {problem : SearchProblem S K} {target : DpNode S K} {t : DpTree S K}

/-- Nodes with the target's state that have children are better than the target. -/
def Cheaper (target : DpNode S K) (n : DpNode S K) : Prop :=
  n.state = target.state → n.totalCost < target.totalCost

/-- Where only better nodes have children, the target is dropped exactly if there is a better node,
and otherwise all nodes of its state are removed. -/
theorem isBest_spec (hsame : problem.ComparesStates) (ht : t.ChildrenOnly (Cheaper target)) :
    ((t.isBest problem target).1 = true ↔
        ∀ n ∈ t.nodes, n.state = target.state → target.totalCost ≤ n.totalCost) ∧
      (∀ i ∈ (t.isBest problem target).2, ∃ n ∈ t.nodes, n.id = i ∧ n.state = target.state ∧
        target.totalCost ≤ n.totalCost) ∧
      ((t.isBest problem target).1 = true → ∀ n ∈ t.nodes, n.state = target.state →
        n.id ∈ (t.isBest problem target).2) := by
  induction t with
  | nil => simp [isBest, nodes]
  | node m child brother ihc ihb =>
    obtain ⟨hm, hc, hb⟩ := ht
    obtain ⟨hbest, hids, hall⟩ := ihc hc
    obtain ⟨hbest', hids', hall'⟩ := ihb hb
    rw [isBest]
    by_cases hstate : target.state = m.state
    · rw [if_pos ((hsame _ _).2 hstate)]
      by_cases hcost : target.totalCost ≤ m.totalCost
      · -- a node that is not better has no children
        have hnil : child = nil := by_contra fun hne ↦ (hm hne hstate.symm).not_ge hcost
        subst hnil
        rw [if_pos hcost, if_pos rfl]
        simp only [nodes, ids, List.nil_append, List.mem_cons, List.cons_append]
        refine ⟨?_, ?_, ?_⟩
        · rw [hbest']
          exact ⟨fun h n hn hs ↦ hn.elim (fun h' ↦ h' ▸ hcost) fun hn ↦ h n hn hs,
            fun h n hn hs ↦ h n (.inr hn) hs⟩
        · rintro i (rfl | hi)
          · exact ⟨m, .inl rfl, rfl, hstate.symm, hcost⟩
          · obtain ⟨n, hn, h⟩ := hids' i hi
            exact ⟨n, .inr hn, h⟩
        · rintro hret n (rfl | hn) hs
          · exact .inl rfl
          · exact .inr (hall' hret n hn hs)
      · rw [if_neg hcost, if_neg Bool.false_ne_true]
        refine ⟨iff_of_false Bool.false_ne_true fun h ↦ ?_, fun i hi ↦ (nomatch hi),
          fun h ↦ (nomatch h)⟩
        exact hcost (h m (.head _) hstate.symm)
    · rw [if_neg (mt (hsame _ _).1 hstate)]
      simp only [nodes, List.mem_cons, List.mem_append]
      have hchild : (∀ n, n = m ∨ n ∈ child.nodes ∨ n ∈ brother.nodes → n.state = target.state →
          target.totalCost ≤ n.totalCost) ↔
          (∀ n ∈ child.nodes, n.state = target.state → target.totalCost ≤ n.totalCost) ∧
            ∀ n ∈ brother.nodes, n.state = target.state → target.totalCost ≤ n.totalCost := by
        constructor
        · exact fun h ↦ ⟨fun n hn ↦ h n (.inr (.inl hn)), fun n hn ↦ h n (.inr (.inr hn))⟩
        · rintro ⟨h, h'⟩ n (rfl | hn | hn) hs
          · exact absurd hs.symm hstate
          · exact h n hn hs
          · exact h' n hn hs
      rw [hchild, ← hbest, ← hbest']
      cases hret : (child.isBest problem target).1 with
      | false =>
        rw [if_neg Bool.false_ne_true]
        refine ⟨by simp [hret], fun i hi ↦ ?_, fun h ↦ by simp [hret] at h⟩
        obtain ⟨n, hn, h⟩ := hids i hi
        exact ⟨n, .inr (.inl hn), h⟩
      | true =>
        rw [if_pos rfl]
        refine ⟨by simp, fun i hi ↦ ?_, ?_⟩
        · obtain hi | hi := List.mem_append.1 hi
          · obtain ⟨n, hn, h⟩ := hids i hi
            exact ⟨n, .inr (.inl hn), h⟩
          · obtain ⟨n, hn, h⟩ := hids' i hi
            exact ⟨n, .inr (.inr hn), h⟩
        · rintro hret' n (rfl | hn | hn) hs
          · exact absurd hs.symm hstate
          · exact List.mem_append_left _ (hall hret n hn hs)
          · exact List.mem_append_right _ (hall' hret' n hn hs)

end Best

end DpTree

/-! ### The state of the search -/

section Search

variable {S K : Type*} [AddCommGroup K] [LinearOrder K]

/-- The edges of the state graph. -/
def SearchProblem.Edge (problem : SearchProblem S K) (s s' : S) (c : K) : Prop :=
  some (s', c) ∈ problem.createChildNodes s

namespace DpMain

/-- The nodes of the search tree. -/
def nodes (m : DpMain S K) : List (DpNode S K) :=
  m.startNode.nodes

/-- A node the queue has as active. -/
def Active (m : DpMain S K) (n : DpNode S K) : Prop :=
  (n, true) ∈ m.topQueue.toList

/-- A node that is active or has been opened. -/
def Live (m : DpMain S K) (opened : List (DpNode S K)) (n : DpNode S K) : Prop :=
  m.Active n ∨ n ∈ opened

end DpMain

/-- What holds of the nodes while the search goes on, with the nodes that have been opened. -/
structure Searching (problem : SearchProblem S K) (start : S) (m : DpMain S K)
    (opened : List (DpNode S K)) : Prop where
  mem_iff : ∀ n, n ∈ m.nodes ↔ ∃ active, (n, active) ∈ m.topQueue.toList
  id_lt : ∀ n ∈ m.nodes, n.id < m.nNodes
  id_inj : ∀ n ∈ m.nodes, ∀ n' ∈ m.nodes, n.id = n'.id → n = n'
  root : ∃ n ∈ m.nodes, n.id = 0 ∧ n.state = start ∧ n.totalCost = 0
  path : ∀ n ∈ m.nodes, WeightedPath problem.Edge start n.state n.totalCost
  key : ∀ n ∈ m.nodes, n.id ≠ 0 → n.totalAstarCost = some n.totalCost
  sorted : m.topQueue.Sorted
  children : m.startNode.ChildrenOnly (· ∈ opened)
  opened_mem : ∀ n ∈ opened, n ∈ m.nodes
  exists_live : ∀ n ∈ m.nodes, ∃ n', m.Live opened n' ∧ n'.state = n.state
  least : ∀ n, m.Live opened n → ∀ n' ∈ m.nodes, n'.state = n.state → n.totalCost ≤ n'.totalCost
  unique : ∀ n n', m.Live opened n → m.Live opened n' → n.state = n'.state → n = n'
  ordered : ∀ n ∈ opened, ∀ a, m.Active a → n.totalCost ≤ a.totalCost

namespace Searching

variable {problem : SearchProblem S K} {start : S} {m : DpMain S K} {opened : List (DpNode S K)}
  {n : DpNode S K}

theorem active_mem (h : Searching problem start m opened) (hn : m.Active n) :
    n ∈ m.nodes :=
  (h.mem_iff n).2 ⟨true, hn⟩

omit [AddCommGroup K] [LinearOrder K] in
theorem active_deactivate (m : DpMain S K) (ids : List ℕ) (n : DpNode S K) :
    (m.deactivate ids).Active n ↔ m.Active n ∧ n.id ∉ ids := by
  rw [DpMain.Active, DpMain.deactivate, DpQueue.mem_deactivate]
  constructor
  · rintro ⟨active, hmem, h⟩
    obtain ⟨rfl, hid⟩ := Bool.and_eq_true_iff.1 h.symm
    exact ⟨hmem, of_decide_eq_true hid⟩
  · rintro ⟨hmem, hid⟩
    exact ⟨true, hmem, by simp [hid]⟩

/-- Active nodes may be deactivated when they have been opened. -/
theorem deactivate (h : Searching problem start m opened) {ids : List ℕ}
    (hids : ∀ n, m.Active n → n.id ∈ ids → n ∈ opened) :
    Searching problem start (m.deactivate ids) opened := by
  have hlive : ∀ n, (m.deactivate ids).Live opened n ↔ m.Live opened n := by
    intro n
    rw [DpMain.Live, DpMain.Live, active_deactivate]
    refine ⟨Or.imp_left And.left, ?_⟩
    rintro (hn | hn)
    · by_cases hid : n.id ∈ ids
      · exact .inr (hids n hn hid)
      · exact .inl ⟨hn, hid⟩
    · exact .inr hn
  refine
    { mem_iff := fun n ↦ (h.mem_iff n).trans ?_
      id_lt := h.id_lt
      id_inj := h.id_inj
      root := h.root
      path := h.path
      key := h.key
      sorted := h.sorted.deactivate ids
      children := h.children
      opened_mem := h.opened_mem
      exists_live := fun n hn ↦ ?_
      least := fun n hn ↦ h.least n ((hlive n).1 hn)
      unique := fun n n' hn hn' ↦ h.unique n n' ((hlive n).1 hn) ((hlive n').1 hn')
      ordered := fun n hn a ha ↦ h.ordered n hn a ((active_deactivate m ids a).1 ha).1 }
  · constructor
    · rintro ⟨active, hn⟩
      exact ⟨active && n.id ∉ ids,
        (DpQueue.mem_deactivate ids m.topQueue (n, _)).2 ⟨active, hn, rfl⟩⟩
    · rintro ⟨active, hn⟩
      obtain ⟨b, hb, -⟩ := (DpQueue.mem_deactivate ids m.topQueue (n, active)).1 hn
      exact ⟨b, hb⟩
  · obtain ⟨n', hn', hstate⟩ := h.exists_live n hn
    exact ⟨n', (hlive n').2 hn', hstate⟩

/-- The cheapest active node is opened. -/
theorem opening (h : Searching problem start m opened) (hn : m.Active n)
    (hmin : ∀ a, m.Active a → n.totalCost ≤ a.totalCost) :
    Searching problem start m (n :: opened) := by
  have hlive : ∀ n', m.Live (n :: opened) n' ↔ m.Live opened n' := by
    intro n'
    simp only [DpMain.Live, List.mem_cons]
    refine ⟨?_, Or.imp_right .inr⟩
    rintro (hn' | rfl | hn')
    exacts [.inl hn', .inl hn, .inr hn']
  refine
    { h with
      children := h.children.mono fun n' hn' ↦ .tail n hn'
      opened_mem := fun n' hn' ↦ ?_
      exists_live := fun n' hn' ↦ ?_
      least := fun n' hn' ↦ h.least n' ((hlive n').1 hn')
      unique := fun n' n'' hn' hn'' ↦ h.unique n' n'' ((hlive n').1 hn') ((hlive n'').1 hn'')
      ordered := fun n' hn' a ha ↦ ?_ }
  · obtain rfl | hn' := List.mem_cons.1 hn'
    · exact h.active_mem hn
    · exact h.opened_mem n' hn'
  · obtain ⟨n'', hn'', hstate⟩ := h.exists_live n' hn'
    exact ⟨n'', (hlive n'').2 hn'', hstate⟩
  · obtain rfl | hn' := List.mem_cons.1 hn'
    · exact hmin a ha
    · exact h.ordered n' hn' a ha

/-- Counting goals changes nothing else. -/
theorem countGoal (h : Searching problem start m opened) (s : S) :
    Searching problem start (DpMain.countGoal problem s m) opened := by
  rw [DpMain.countGoal]
  split
  · exact { h with }
  · exact h

section

omit [AddCommGroup K] [LinearOrder K]

theorem countGoal_nodes (m : DpMain S K) (s : S) :
    (DpMain.countGoal problem s m).nodes = m.nodes := by
  rw [DpMain.countGoal]
  split <;> rfl

theorem countGoal_active (m : DpMain S K) (s : S) (n : DpNode S K) :
    (DpMain.countGoal problem s m).Active n ↔ m.Active n := by
  rw [DpMain.countGoal]
  split <;> rfl

end

section Child

variable {parent : DpNode S K} {state : S} {cost : K}

/-- A child that has no cheaper node of its state takes the place of all of them. -/
theorem accept [IsOrderedAddMonoid K] (h : Searching problem start m opened)
    (hparent : parent ∈ opened) (hmax : ∀ n ∈ opened, n.totalCost ≤ parent.totalCost)
    (hedge : problem.Edge parent.state state cost) (hcost : 0 < cost)
    (hastar : ∀ s s', problem.calcAstarCost s s' = 0) {ids : List ℕ}
    (hids : ∀ i ∈ ids, ∃ n ∈ m.nodes, n.id = i ∧ n.state = state)
    (hall : ∀ n ∈ m.nodes, n.state = state → n.id ∈ ids)
    (hbest : ∀ n ∈ m.nodes, n.state = state → parent.totalCost + cost ≤ n.totalCost) (nGoals : ℕ) :
    let n := DpMain.childNode problem parent state cost m.nNodes
    Searching problem start
      { startNode := m.startNode.addChild parent.id n
        topQueue := (m.topQueue.deactivate ids).addQueue n
        nNodes := m.nNodes + 1
        nGoals := nGoals } opened := by
  intro n
  set m' : DpMain S K :=
    { startNode := m.startNode.addChild parent.id n
      topQueue := (m.topQueue.deactivate ids).addQueue n
      nNodes := m.nNodes + 1
      nGoals := nGoals } with hm'
  have hparentmem := h.opened_mem parent hparent
  have hfresh : ∀ x ∈ m.nodes, x ≠ n := fun x hx hxn ↦ (h.id_lt x hx).ne (by rw [hxn]; rfl)
  have hmore : ∀ x ∈ opened, x.totalCost < n.totalCost := fun x hx ↦
    (hmax x hx).trans_lt (lt_add_of_pos_right _ hcost)
  have hmem : ∀ x, x ∈ m'.nodes ↔ x ∈ m.nodes ∨ x = n := fun x ↦ by
    refine (DpTree.mem_addChild parent.id n m.startNode x).trans (or_congr_right ?_)
    exact ⟨And.left, fun hx ↦ ⟨hx, parent, hparentmem, rfl⟩⟩
  have hactive : ∀ x, m'.Active x ↔ x = n ∨ m.Active x ∧ x.state ≠ state := by
    intro x
    rw [DpMain.Active, DpQueue.mem_addQueue, Prod.mk.injEq, and_iff_left rfl]
    refine or_congr_right
      ((active_deactivate m ids x).trans (and_congr_right fun hx ↦ not_congr ?_))
    constructor
    · intro hid
      obtain ⟨y, hy, hyid, hystate⟩ := hids _ hid
      rwa [h.id_inj x (h.active_mem hx) y hy hyid.symm]
    · exact hall x (h.active_mem hx)
  -- an opened node of the same state would be cheaper
  have hopened : ∀ x ∈ opened, x.state ≠ state := fun x hx hstate ↦
    ((hmore x hx).trans_le (hbest x (h.opened_mem x hx) hstate)).false
  have hlive : ∀ x, m'.Live opened x ↔ x = n ∨ m.Live opened x ∧ x.state ≠ state := by
    intro x
    rw [DpMain.Live, DpMain.Live, hactive]
    constructor
    · rintro ((hx | hx) | hx)
      exacts [.inl hx, .inr ⟨.inl hx.1, hx.2⟩, .inr ⟨.inr hx, hopened x hx⟩]
    · rintro (hx | ⟨hx | hx, hstate⟩)
      exacts [.inl (.inl hx), .inl (.inr ⟨hx, hstate⟩), .inr hx]
  refine
    { mem_iff := fun x ↦ ?_
      id_lt := fun x hx ↦ ?_
      id_inj := fun x hx y hy hid ↦ ?_
      root := ?_
      path := fun x hx ↦ ?_
      key := fun x hx hid ↦ ?_
      sorted := (h.sorted.deactivate ids).addQueue n
      children := h.children.addChild n fun x hx hid ↦ ?_
      opened_mem := fun x hx ↦ (hmem x).2 (.inl (h.opened_mem x hx))
      exists_live := fun x hx ↦ ?_
      least := fun x hx y hy hstate ↦ ?_
      unique := fun x y hx hy hstate ↦ ?_
      ordered := fun x hx a ha ↦ ?_ }
  · rw [hmem, h.mem_iff]
    constructor
    · rintro (⟨active, hx⟩ | rfl)
      · exact ⟨active && x.id ∉ ids, (DpQueue.mem_addQueue _ _ _).2
          (.inr ((DpQueue.mem_deactivate ids m.topQueue (x, _)).2 ⟨active, hx, rfl⟩))⟩
      · exact ⟨true, (DpQueue.mem_addQueue _ _ _).2 (.inl rfl)⟩
    · rintro ⟨active, hx⟩
      obtain hx | hx := (DpQueue.mem_addQueue _ _ _).1 hx
      · exact .inr (congrArg Prod.fst hx)
      · obtain ⟨b, hb, -⟩ := (DpQueue.mem_deactivate ids m.topQueue (x, active)).1 hx
        exact .inl ⟨b, hb⟩
  · obtain hx | rfl := (hmem x).1 hx
    · exact (h.id_lt x hx).trans (Nat.lt_succ_self _)
    · exact Nat.lt_succ_self _
  · obtain hx | rfl := (hmem x).1 hx
    · obtain hy | rfl := (hmem y).1 hy
      · exact h.id_inj x hx y hy hid
      · exact absurd hid (h.id_lt x hx).ne
    · obtain hy | rfl := (hmem y).1 hy
      · exact absurd hid.symm (h.id_lt y hy).ne
      · rfl
  · obtain ⟨x, hx, hroot⟩ := h.root
    exact ⟨x, (hmem x).2 (.inl hx), hroot⟩
  · obtain hx | rfl := (hmem x).1 hx
    · exact h.path x hx
    · exact (h.path parent hparentmem).snoc hedge
  · obtain hx | rfl := (hmem x).1 hx
    · exact h.key x hx hid
    · show some (parent.totalCost + cost + problem.calcAstarCost state parent.state) = _
      rw [hastar, add_zero]
      rfl
  · exact h.id_inj x hx parent hparentmem hid ▸ hparent
  · obtain hx | rfl := (hmem x).1 hx
    · by_cases hstate : x.state = state
      · exact ⟨n, (hlive n).2 (.inl rfl), hstate.symm⟩
      · obtain ⟨x', hx', hstate'⟩ := h.exists_live x hx
        exact ⟨x', (hlive x').2 (.inr ⟨hx', hstate' ▸ hstate⟩), hstate'⟩
    · exact ⟨n, (hlive n).2 (.inl rfl), rfl⟩
  · obtain rfl | ⟨hx, hne⟩ := (hlive x).1 hx
    · obtain hy | rfl := (hmem y).1 hy
      · exact hbest y hy hstate
      · exact le_rfl
    · obtain hy | rfl := (hmem y).1 hy
      · exact h.least x hx y hy hstate
      · exact absurd hstate.symm hne
  · obtain rfl | ⟨hx, hne⟩ := (hlive x).1 hx
    · obtain rfl | ⟨hy, hne⟩ := (hlive y).1 hy
      · rfl
      · exact absurd hstate.symm hne
    · obtain rfl | ⟨hy, hne'⟩ := (hlive y).1 hy
      · exact absurd hstate hne
      · exact h.unique x y hx hy hstate
  · obtain rfl | ⟨ha, -⟩ := (hactive a).1 ha
    · exact (hmore x hx).le
    · exact h.ordered x hx a ha

variable [IsOrderedAddMonoid K] (hsame : problem.ComparesStates)
  (hpos : ∀ s s' c, problem.Edge s s' c → 0 < c) (hastar : ∀ s s', problem.calcAstarCost s s' = 0)

include hsame hpos hastar

/-- What one child of the node that is opened does: its state gets a node that is not more
expensive, and no other node becomes active. -/
theorem openChild (h : Searching problem start m opened) (hparent : parent ∈ opened)
    (hmax : ∀ n ∈ opened, n.totalCost ≤ parent.totalCost) {child : Option (S × K)}
    (hchild : child ∈ problem.createChildNodes parent.state) :
    Searching problem start (DpMain.openChild problem parent m child) opened ∧
      (∀ n ∈ m.nodes, n ∈ (DpMain.openChild problem parent m child).nodes) ∧
      (∀ n ∈ m.nodes, (DpMain.openChild problem parent m child).Active n → m.Active n) ∧
      ∀ s c, child = some (s, c) → ∃ n ∈ (DpMain.openChild problem parent m child).nodes,
        n.state = s ∧ n.totalCost ≤ parent.totalCost + c := by
  obtain _ | ⟨state, cost⟩ := child
  · exact ⟨h, fun _ hn ↦ hn, fun _ _ hn ↦ hn, fun _ _ hc ↦ (nomatch hc)⟩
  have hcost := hpos _ _ _ hchild
  set n := DpMain.childNode problem parent state cost m.nNodes with hn
  have hcheaper : m.startNode.ChildrenOnly (DpTree.Cheaper n) := h.children.mono fun x hx _ ↦
    (hmax x hx).trans_lt (lt_add_of_pos_right _ hcost)
  obtain ⟨hbest, hids, hall⟩ := DpTree.isBest_spec hsame hcheaper
  have hid : ∀ x ∈ m.nodes, x.id ≠ n.id := fun x hx ↦ (h.id_lt x hx).ne
  rw [DpMain.openChild, ← hn]
  cases hret : (m.startNode.isBest problem n).1 with
  | true =>
    have haccept := h.accept hparent hmax hchild hcost hastar
      (fun i hi ↦ (hids i hi).imp fun x hx ↦ ⟨hx.1, hx.2.1, hx.2.2.1⟩) (hall hret)
      (hbest.1 hret) m.nGoals
    have hmem : ∀ x, x ∈ m.nodes ∨ x = n → x ∈ (m.startNode.addChild parent.id n).nodes :=
      fun x hx ↦ (DpTree.mem_addChild parent.id n m.startNode x).2
        (hx.imp_right fun hx ↦ ⟨hx, parent, h.opened_mem parent hparent, rfl⟩)
    rw [if_pos rfl]
    refine ⟨haccept.countGoal state, fun x hx ↦ ?_, fun x hx ha ↦ ?_, ?_⟩
    · rw [countGoal_nodes]
      exact hmem x (.inl hx)
    · rw [countGoal_active] at ha
      obtain ha | ha := (DpQueue.mem_addQueue _ _ _).1 ha
      · exact absurd (congrArg (fun y ↦ y.1.id) ha) (hid x hx)
      · exact ((active_deactivate m _ x).1 ha).1
    · rintro s c ⟨⟩
      rw [countGoal_nodes]
      exact ⟨n, hmem n (.inr rfl), rfl, le_rfl⟩
  | false =>
    -- there is a cheaper node, and what has been removed is not active
    have hne : ¬∀ x ∈ m.nodes, x.state = n.state → n.totalCost ≤ x.totalCost := by
      rw [← Bool.not_eq_true] at hret
      exact fun hle ↦ hret (hbest.2 hle)
    push Not at hne
    obtain ⟨x, hx, hstate, hlt⟩ := hne
    rw [if_neg Bool.false_ne_true]
    refine ⟨h.deactivate fun y hy hyid ↦ ?_, fun y hy ↦ hy, fun y _ hy ↦ ?_, ?_⟩
    · obtain ⟨z, hz, hzid, hzstate, hzcost⟩ := hids _ hyid
      obtain rfl := h.id_inj z hz y (h.active_mem hy) hzid
      have hle := h.least z (.inl hy) x hx (hstate.trans hzstate.symm)
      exact absurd (hzcost.trans hle) hlt.not_ge
    · exact ((active_deactivate m _ y).1 hy).1
    · rintro s c ⟨⟩
      exact ⟨x, hx, hstate, hlt.le⟩

/-- What the children of the node that is opened do. -/
theorem openChildren {children : List (Option (S × K))}
    (hchildren : ∀ child ∈ children, child ∈ problem.createChildNodes parent.state)
    (h : Searching problem start m opened) (hparent : parent ∈ opened)
    (hmax : ∀ n ∈ opened, n.totalCost ≤ parent.totalCost) :
    Searching problem start (children.foldl (DpMain.openChild problem parent) m) opened ∧
      (∀ n ∈ m.nodes, n ∈ (children.foldl (DpMain.openChild problem parent) m).nodes) ∧
      (∀ n ∈ m.nodes, (children.foldl (DpMain.openChild problem parent) m).Active n →
        m.Active n) ∧
      ∀ s c, some (s, c) ∈ children →
        ∃ n ∈ (children.foldl (DpMain.openChild problem parent) m).nodes,
          n.state = s ∧ n.totalCost ≤ parent.totalCost + c := by
  induction children generalizing m with
  | nil => exact ⟨h, fun _ hn ↦ hn, fun _ _ hn ↦ hn, fun _ _ hc ↦ (nomatch hc)⟩
  | cons child children ih =>
    obtain ⟨h', hmem, hactive, hcover⟩ :=
      h.openChild hsame hpos hastar hparent hmax (hchildren child (.head _))
    obtain ⟨h'', hmem', hactive', hcover'⟩ := ih (fun c hc ↦ hchildren c (.tail _ hc)) h'
    rw [List.foldl_cons]
    refine ⟨h'', fun n hn ↦ hmem' n (hmem n hn), fun n hn ha ↦
      hactive n hn (hactive' n (hmem n hn) ha), fun s c hsc ↦ ?_⟩
    obtain hsc | hsc := List.mem_cons.1 hsc
    · obtain ⟨n, hn, hle⟩ := hcover s c hsc.symm
      exact ⟨n, hmem' n hn, hle⟩
    · exact hcover' s c hsc

end Child

end Searching

/-! ### The loop -/

/-- What holds before every turn of the loop: the children of opened nodes are there. -/
structure BetweenTurns (problem : SearchProblem S K) (start : S) (m : DpMain S K)
    (opened : List (DpNode S K)) : Prop where
  searching : Searching problem start m opened
  closed : ∀ e ∈ opened, ∀ s c, problem.Edge e.state s c →
    ∃ n ∈ m.nodes, n.state = s ∧ n.totalCost ≤ e.totalCost + c
  inactive : ∀ e ∈ opened, ¬m.Active e
  nodup : (opened.map DpNode.state).Nodup

/-- The node that is opened next: the cheapest active one. -/
def Next (m : DpMain S K) : Option (DpNode S K) → Prop
  | none => ∀ n, ¬m.Active n
  | some n => m.Active n ∧ ∀ a, m.Active a → n.totalCost ≤ a.totalCost

section Loop

variable {problem : SearchProblem S K} {start : S} {m : DpMain S K} {opened : List (DpNode S K)}

/-- When the start node has been opened, the queue gives the cheapest active node. -/
theorem BetweenTurns.next_smallest (h : BetweenTurns problem start m opened)
    (hroot : ∃ e ∈ opened, e.id = 0) : Next m m.topQueue.smallest := by
  have hkey : ∀ n, m.Active n → n.totalAstarCost = some n.totalCost := fun n hn ↦ by
    refine h.searching.key n (h.searching.active_mem hn) fun hid ↦ ?_
    obtain ⟨e, he, heid⟩ := hroot
    obtain rfl := h.searching.id_inj e (h.searching.opened_mem e he) n
      (h.searching.active_mem hn) (heid.trans hid.symm)
    exact h.inactive e he hn
  cases hsmallest : m.topQueue.smallest with
  | none =>
    intro n hn
    have := (DpQueue.first_eq_none _ m.topQueue).1 hsmallest (n, true) hn
    cases this
  | some n =>
    obtain ⟨active, hmem, rfl⟩ := DpQueue.mem_of_first hsmallest
    exact ⟨hmem, fun a ha ↦ h.searching.sorted.first_le hsmallest (x := (a, true)) ha rfl
      (hkey n hmem) (hkey a ha)⟩

theorem openNode_eq (n : DpNode S K) (m : DpMain S K) :
    DpMain.openNode problem (-1) (-1) n m =
      (0, (problem.createChildNodes n.state).foldl (DpMain.openChild problem n) m) := by
  rw [DpMain.openNode]
  split
  · rename_i hnil
    rw [hnil]
    rfl
  · simp

theorem BetweenTurns.turn [IsOrderedAddMonoid K] (hsame : problem.ComparesStates)
    (h : BetweenTurns problem start m opened) (hpos : ∀ s s' c, problem.Edge s s' c → 0 < c)
    (hastar : ∀ s s', problem.calcAstarCost s s' = 0) {n : DpNode S K} (hn : Next m (some n)) :
    BetweenTurns problem start ((DpMain.openNode problem (-1) (-1) n m).2.deactivate [n.id])
      (n :: opened) := by
  obtain ⟨hactive, hmin⟩ := hn
  have hmem := h.searching.active_mem hactive
  have hopening := h.searching.opening hactive hmin
  have hmax : ∀ e ∈ n :: opened, e.totalCost ≤ n.totalCost := fun e he ↦ by
    obtain rfl | he := List.mem_cons.1 he
    · exact le_rfl
    · exact h.searching.ordered e he n hactive
  obtain ⟨hsearching, hnodes, hold, hcover⟩ :=
    hopening.openChildren hsame hpos hastar (fun _ hc ↦ hc) (.head _) hmax
  rw [openNode_eq]
  set m' := (problem.createChildNodes n.state).foldl (DpMain.openChild problem n) m
  refine ⟨hsearching.deactivate fun x hx hid ↦ ?_, fun e he s c hedge ↦ ?_, fun e he ha ↦ ?_, ?_⟩
  · have hxn := hsearching.id_inj x (hsearching.active_mem hx) n (hnodes n hmem)
      (List.mem_singleton.1 hid)
    exact hxn ▸ .head _
  · obtain rfl | he := List.mem_cons.1 he
    · exact hcover s c hedge
    · obtain ⟨x, hx, hle⟩ := h.closed e he s c hedge
      exact ⟨x, hnodes x hx, hle⟩
  · obtain ⟨ha, hid⟩ := (Searching.active_deactivate m' _ e).1 ha
    obtain rfl | he := List.mem_cons.1 he
    · exact hid (.head _)
    · exact h.inactive e he (hold e (h.searching.opened_mem e he) ha)
  · rw [List.map_cons, List.nodup_cons]
    refine ⟨fun hstate ↦ ?_, h.nodup⟩
    obtain ⟨e, he, hes⟩ := List.mem_map.1 hstate
    obtain rfl := h.searching.unique e n (.inr he) (.inl hactive) hes
    exact h.inactive e he hactive

/-- The whole loop: every state is opened at most once. -/
theorem BetweenTurns.loop [IsOrderedAddMonoid K] [Fintype S] (hsame : problem.ComparesStates)
    (hpos : ∀ s s' c, problem.Edge s s' c → 0 < c) (hastar : ∀ s s', problem.calcAstarCost s s' = 0)
    {fuel : ℕ} (h : BetweenTurns problem start m opened)
    (hfuel : Fintype.card S < fuel + opened.length) {q : Option (DpNode S K)} (hq : Next m q)
    (hroot : (∃ e ∈ opened, e.id = 0) ∨ ∃ n, q = some n ∧ n.id = 0) :
    ∃ m' opened', DpMain.searchLoop problem (-1) (-1) fuel q m = some m' ∧
      BetweenTurns problem start m' opened' ∧ ∀ n, ¬m'.Active n := by
  induction fuel generalizing m opened q with
  | zero =>
    have hle := h.nodup.length_le_card
    rw [List.length_map] at hle
    omega
  | succ fuel ih =>
    cases q with
    | none => exact ⟨m, opened, rfl, h, hq⟩
    | some n =>
      have hturn := h.turn hsame hpos hastar hq
      have hroot' : ∃ e ∈ n :: opened, e.id = 0 := by
        obtain ⟨e, he, hid⟩ | ⟨x, hx, hid⟩ := hroot
        · exact ⟨e, .tail _ he, hid⟩
        · exact ⟨n, .head _, (Option.some.inj hx) ▸ hid⟩
      have hlen : Fintype.card S < fuel + (n :: opened).length := by
        rw [List.length_cons]
        omega
      obtain ⟨m', opened', hm', hend⟩ := ih hturn hlen (hturn.next_smallest hroot') (.inl hroot')
      have hret : (DpMain.openNode problem (-1) (-1) n m).1 = 0 := by rw [openNode_eq]
      refine ⟨m', opened', ?_, hend⟩
      rw [DpMain.searchLoop]
      dsimp only
      rwa [if_neg (not_not.2 hret)]

omit [AddCommGroup K] in
theorem searchLoop_mono [AddCommGroup K] {maxNodes maxGoals : ℤ} {fuel fuel' : ℕ}
    (hle : fuel ≤ fuel') {q : Option (DpNode S K)} {m m' : DpMain S K}
    (h : DpMain.searchLoop problem maxNodes maxGoals fuel q m = some m') :
    DpMain.searchLoop problem maxNodes maxGoals fuel' q m = some m' := by
  induction fuel generalizing fuel' q m with
  | zero => cases h
  | succ fuel ih =>
    obtain ⟨fuel', rfl⟩ : ∃ k, fuel' = k + 1 := ⟨fuel' - 1, by omega⟩
    cases q with
    | none => exact h
    | some n =>
      rw [DpMain.searchLoop] at h ⊢
      dsimp only at h ⊢
      split at h
      · rename_i hret
        rwa [if_pos hret]
      · rename_i hret
        rw [if_neg hret]
        exact ih (by omega) h

end Loop

/-! ### The result -/

section Result

variable {problem : SearchProblem S K} {start : S}

theorem searching_single {n : DpNode S K} (hid : n.id = 0) (hstate : n.state = start)
    (hcost : n.totalCost = 0) :
    Searching problem start
      { startNode := .node n .nil .nil, topQueue := DpQueue.nil.addQueue n, nNodes := 0 + 1,
        nGoals := 0 } [] := by
  set m : DpMain S K :=
    { startNode := .node n .nil .nil, topQueue := DpQueue.nil.addQueue n, nNodes := 0 + 1,
      nGoals := 0 }
  have hmem : ∀ x, x ∈ m.nodes ↔ x = n := fun x ↦ List.mem_singleton
  have hqueue : ∀ x, x ∈ m.topQueue.toList ↔ x = (n, true) := fun x ↦ List.mem_singleton
  have hlive : ∀ x, m.Live [] x ↔ x = n := fun x ↦ by
    rw [DpMain.Live, DpMain.Active, hqueue, Prod.mk.injEq, and_iff_left rfl]
    exact or_iff_left (List.not_mem_nil)
  refine
    { mem_iff := fun x ↦ ?_
      id_lt := fun x hx ↦ ?_
      id_inj := fun x hx y hy _ ↦ ((hmem x).1 hx).trans ((hmem y).1 hy).symm
      root := ⟨n, .head _, hid, hstate, hcost⟩
      path := fun x hx ↦ ?_
      key := fun x hx hne ↦ ?_
      sorted := ⟨fun x hx ↦ (nomatch hx), fun x hx ↦ (nomatch hx), trivial, trivial⟩
      children := ⟨fun h ↦ absurd rfl h, trivial, trivial⟩
      opened_mem := fun x hx ↦ (nomatch hx)
      exists_live := fun x hx ↦ ⟨n, (hlive n).2 rfl, by rw [(hmem x).1 hx]⟩
      least := fun x hx y hy _ ↦ by rw [(hlive x).1 hx, (hmem y).1 hy]
      unique := fun x y hx hy _ ↦ ((hlive x).1 hx).trans ((hlive y).1 hy).symm
      ordered := fun x hx ↦ (nomatch hx) }
  · rw [hmem]
    simp [hqueue]
  · rw [(hmem x).1 hx, hid]
    exact Nat.one_pos
  · rw [(hmem x).1 hx, hstate, hcost]
    exact .nil
  · rw [(hmem x).1 hx] at hne
    exact absurd hid hne

theorem betweenTurns_setStartNode (problem : SearchProblem S K) (start : S)
    (totalAstarCost : Option K) :
    BetweenTurns problem start (DpMain.setStartNode problem start totalAstarCost DpMain.new) [] :=
  have hsingle : Searching problem start _ [] :=
    searching_single (n := DpMain.newNode start totalAstarCost 0) rfl rfl rfl
  ⟨hsingle.countGoal start, fun _ he ↦ (nomatch he), fun _ he ↦ (nomatch he), List.nodup_nil⟩

/-- The search begins with the start node. -/
theorem topNode_setStartNode (problem : SearchProblem S K) (start : S) (totalAstarCost : Option K) :
    ∃ n, (DpMain.setStartNode problem start totalAstarCost DpMain.new).topNode = some n ∧ n.id = 0 ∧
      Next (DpMain.setStartNode problem start totalAstarCost DpMain.new) (some n) ∧
      ∃ child brother, (DpMain.setStartNode problem start totalAstarCost DpMain.new).startNode =
        .node n child brother := by
  refine ⟨DpMain.newNode start totalAstarCost 0, ?_, rfl, ⟨?_, fun a ha ↦ ?_⟩, .nil, .nil, ?_⟩
  · rw [DpMain.setStartNode, DpMain.countGoal]
    split <;> rfl
  · rw [DpMain.setStartNode, Searching.countGoal_active]
    exact .head _
  · rw [DpMain.setStartNode, Searching.countGoal_active] at ha
    obtain ⟨rfl, -⟩ := Prod.mk.inj (List.mem_singleton.1 ha)
    exact le_rfl
  · rw [DpMain.setStartNode, DpMain.countGoal]
    split <;> rfl

/-- When no node is active any more, the opened nodes bound the costs of all paths. -/
theorem BetweenTurns.exists_le [IsOrderedAddMonoid K] {m : DpMain S K} {opened : List (DpNode S K)}
    (h : BetweenTurns problem start m opened) (hend : ∀ n, ¬m.Active n) {s : S} {c : K}
    (hpath : WeightedPath problem.Edge start s c) :
    ∃ n ∈ m.nodes, n.state = s ∧ n.totalCost ≤ c := by
  have hopened : ∀ n ∈ m.nodes, ∃ e ∈ opened, e.state = n.state ∧ e.totalCost ≤ n.totalCost := by
    intro n hn
    obtain ⟨e, he, hstate⟩ := h.searching.exists_live n hn
    exact ⟨e, he.resolve_left (hend e), hstate, h.searching.least e he n hn hstate.symm⟩
  have hlabel : ∃ d ≤ c, ∃ e ∈ opened, e.state = s ∧ e.totalCost = d := by
    refine hpath.exists_label_le (fun s d ↦ ∃ e ∈ opened, e.state = s ∧ e.totalCost = d) ?_ ?_
    · obtain ⟨n, hn, -, hstate, hcost⟩ := h.searching.root
      obtain ⟨e, he, hes, hle⟩ := hopened n hn
      exact ⟨e.totalCost, hle.trans hcost.le, e, he, hes.trans hstate, rfl⟩
    · rintro _ w _ d ⟨e, he, rfl, rfl⟩ hedge
      obtain ⟨n, hn, hns, hle⟩ := h.closed e he w d hedge
      obtain ⟨e', he', hes, hle'⟩ := hopened n hn
      exact ⟨e'.totalCost, hle'.trans hle, e', he', hes.trans hns, rfl⟩
  obtain ⟨_, hd, e, he, hstate, rfl⟩ := hlabel
  exact ⟨e, h.searching.opened_mem e he, hstate, hd⟩

/-- An exhaustive search ends, and its best goal is the cheapest one that can be reached. -/
theorem search_finds_best [IsOrderedAddMonoid K] [Finite S] (hsame : problem.ComparesStates)
    (hpos : ∀ s s' c, problem.Edge s s' c → 0 < c)
    (hastar : ∀ s s', problem.calcAstarCost s s' = 0) (hstart : problem.isGoal start = false)
    (totalAstarCost : Option K) :
    ∃ m fuel₀,
      (∀ fuel, fuel₀ ≤ fuel → DpMain.search problem (-1) (-1) fuel
        (DpMain.setStartNode problem start totalAstarCost DpMain.new) = some (0, m)) ∧
      (m.bestGoal problem = none ↔
        ¬∃ s c, problem.isGoal s = true ∧ WeightedPath problem.Edge start s c) ∧
      ∀ goal, m.bestGoal problem = some goal →
        problem.isGoal goal.state = true ∧
        IsLeast {c | ∃ s, problem.isGoal s = true ∧ WeightedPath problem.Edge start s c}
          goal.totalCost := by
  have := Fintype.ofFinite S
  obtain ⟨n₀, htop, hid, hnext, child, brother, htree⟩ :=
    topNode_setStartNode problem start totalAstarCost
  obtain ⟨m, opened, hloop, hbetween, hend⟩ :=
    (betweenTurns_setStartNode problem start totalAstarCost).loop hsame hpos hastar
      (show Fintype.card S < Fintype.card S + 1 + 0 from Nat.lt_succ_self _) hnext
        (.inr ⟨n₀, rfl, hid⟩)
  refine ⟨m, Fintype.card S + 1, fun fuel hfuel ↦ ?_, ?_, fun goal hgoal ↦ ?_⟩
  · rw [DpMain.search, htree]
    dsimp only
    rw [htop, searchLoop_mono hfuel hloop, Option.map_some]
  · rw [DpMain.bestGoal, DpQueue.smallestGoal, DpQueue.first_eq_none]
    constructor
    · rintro hnone ⟨s, c, hs, hpath⟩
      obtain ⟨n, hn, rfl, -⟩ := hbetween.exists_le hend hpath
      obtain ⟨active, hmem⟩ := (hbetween.searching.mem_iff n).1 hn
      rw [hnone _ hmem] at hs
      cases hs
    · intro hno x hx
      rw [← Bool.not_eq_true]
      exact fun hx' ↦ hno ⟨_, _, hx', hbetween.searching.path x.1
        ((hbetween.searching.mem_iff x.1).2 ⟨x.2, hx⟩)⟩
  · obtain ⟨active, hmem, hgoalstate⟩ := DpQueue.mem_of_first hgoal
    have hkey : ∀ n ∈ m.nodes, problem.isGoal n.state = true →
        n.totalAstarCost = some n.totalCost := fun n hn hns ↦ by
      refine hbetween.searching.key n hn fun hnid ↦ ?_
      -- the start node is no goal
      obtain ⟨r, hr, hrid, hrstate, -⟩ := hbetween.searching.root
      rw [hbetween.searching.id_inj n hn r hr (hnid.trans hrid.symm), hrstate, hstart] at hns
      cases hns
    have hgoalmem := (hbetween.searching.mem_iff goal).2 ⟨active, hmem⟩
    refine ⟨hgoalstate, ⟨_, hgoalstate, hbetween.searching.path goal hgoalmem⟩, ?_⟩
    rintro c ⟨s, hs, hpath⟩
    obtain ⟨n, hn, rfl, hle⟩ := hbetween.exists_le hend hpath
    obtain ⟨b, hb⟩ := (hbetween.searching.mem_iff n).1 hn
    exact (hbetween.searching.sorted.first_le hgoal (x := (n, b)) hb hs
      (hkey goal hgoalmem hgoalstate) (hkey n hn hs)).trans hle

end Result

end Search

/-- A square with a diagonal: the direct way to the corner before the goal is the dear one. -/
def square : SearchProblem (Fin 4) ℤ where
  createChildNodes s :=
    if s = 0 then [some (2, 3), some (1, 1)] else if s = 1 then [none, some (2, 1)]
    else if s = 2 then [some (3, 1), some (0, 1)] else []
  calcAstarCost _ _ := 0
  sameState s s' := s = s'
  isGoal s := s = 3

theorem search_square_finds_best :
    ∃ m fuel₀,
      (∀ fuel, fuel₀ ≤ fuel → DpMain.search square (-1) (-1) fuel
        (DpMain.setStartNode square 0 (some 2) DpMain.new) = some (0, m)) ∧
      (m.bestGoal square = none ↔
        ¬∃ s c, square.isGoal s = true ∧ WeightedPath square.Edge 0 s c) ∧
      ∀ goal, m.bestGoal square = some goal →
        square.isGoal goal.state = true ∧
        IsLeast {c | ∃ s, square.isGoal s = true ∧ WeightedPath square.Edge 0 s c}
          goal.totalCost := by
  refine search_finds_best (fun _ _ ↦ decide_eq_true_iff) (fun s s' c h ↦ ?_) (fun _ _ ↦ rfl) rfl
    (some 2)
  simp only [SearchProblem.Edge, square] at h
  split_ifs at h <;> simp at h <;> omega

/-- The node that was made first for the corner is removed, and the goal costs three. -/
example : (DpMain.search square (-1) (-1) 5
    (DpMain.setStartNode square 0 (some 2) DpMain.new)).bind
      (fun r ↦ (r.2.bestGoal square).map DpNode.totalCost) = some 3 := by
  decide +kernel

end OpenHRP
