import OpenHRP.Model.LinkTraverse

/-!
# Paths between links

`LinkPath::find` looks for the way from one link to another with a depth-first search that records
the links it stands on: first through the children, then through the parent, never back to the
link it came from.

The search finds exactly one list (`exists_find`): the links from `base` up to the lowest link that
has both `base` and `endLink` below it, then down to `endLink` (`IsPath`). Such a list is a
traverse, so forward kinematics can run along it.
-/

namespace OpenHRP

variable {ι σ : Type*}

/-! ### What a path is -/

section IsPath

variable [DecidableEq ι] (t : LinkTree ι)

/-- Every link of the list but the first is a child of the one before it. -/
def Chains (l : List ι) : Prop :=
  l.IsChain fun p c ↦ t.parent c = some p

/-- The links `ups` from `base` upward, the turning link `top`, and the links `downs` down to
`endLink`. Nothing in `ups` has `endLink` below it. -/
structure IsPath (base endLink : ι) (ups : List ι) (top : ι) (downs : List ι) : Prop where
  ascends : Ascends t (ups ++ [top])
  descends : Chains t (top :: downs)
  head : (ups ++ [top]).head? = some base
  last : (top :: downs).getLast? = some endLink
  notMem : ∀ i ∈ ups, endLink ∉ t.below i

/-- The lowest link that has both `i` and `j` below it. -/
def IsMeet (i j top : ι) : Prop :=
  i ∈ t.below top ∧ j ∈ t.below top ∧
    ∀ c ∈ t.children top, ¬(i ∈ t.below c ∧ j ∈ t.below c)

variable {t}

variable {l : List ι} {i : ι}

theorem Chains.mem_below {p : ι} (h : Chains t (p :: l)) (hi : i ∈ p :: l) : i ∈ t.below p := by
  induction l generalizing p with
  | nil => simpa [LinkTree.below] using Or.inl (List.mem_singleton.1 hi)
  | cons c l ih =>
    obtain ⟨hc, hl⟩ := List.isChain_cons_cons.1 h
    rcases List.mem_cons.1 hi with rfl | hi
    · exact List.mem_cons_self
    · exact List.mem_cons_of_mem _ (t.below_subset_of_parent hc (ih hl hi))

theorem Ascends.mem_below {c : ι} (h : Ascends t (c :: l)) (hi : i ∈ c :: l) : c ∈ t.below i := by
  induction l generalizing c with
  | nil =>
    obtain rfl : i = c := List.mem_singleton.1 hi
    exact List.mem_cons_self
  | cons p l ih =>
    obtain ⟨hp, hl⟩ := List.isChain_cons_cons.1 h
    rcases List.mem_cons.1 hi with rfl | hi
    · exact List.mem_cons_self
    · exact t.mem_below_iff_parent.2 (.inr ⟨p, hp, ih hl hi⟩)

theorem Chains.idxOf_lt {p : ι} (h : Chains t (p :: l)) (hi : i ∈ l) :
    t.links.idxOf p < t.links.idxOf i := by
  induction l generalizing p with
  | nil => simp at hi
  | cons c l ih =>
    obtain ⟨hc, hl⟩ := List.isChain_cons_cons.1 h
    have hlt := t.idxOf_parent_lt hc
    rcases List.mem_cons.1 hi with rfl | hi
    · exact hlt
    · exact hlt.trans (ih hl hi)

theorem Chains.last_mem_below {p endLink : ι} (h : Chains t (p :: l))
    (hlast : (p :: l).getLast? = some endLink) (hi : i ∈ p :: l) : endLink ∈ t.below i := by
  induction l generalizing p with
  | nil =>
    obtain rfl : i = p := List.mem_singleton.1 hi
    obtain rfl : i = endLink := by simpa using hlast
    exact List.mem_cons_self
  | cons c l ih =>
    have hl : Chains t (c :: l) := (List.isChain_cons_cons.1 h).2
    rw [List.getLast?_cons_cons] at hlast
    rcases List.mem_cons.1 hi with rfl | hi
    · exact h.mem_below (List.mem_cons_of_mem _ (List.mem_of_getLast? hlast))
    · exact ih hl hlast hi

/-- A chain of children is a downward part. -/
theorem Chains.descends {S : Set ι} {p : ι} (h : Chains t (p :: l)) (hp : p ∈ S)
    (hS : ∀ i ∈ l, i ∉ S) : Descends t S l := by
  induction l generalizing S p with
  | nil => trivial
  | cons c l ih =>
    have hc : t.parent c = some p := (List.isChain_cons_cons.1 h).1
    have hl : Chains t (c :: l) := (List.isChain_cons_cons.1 h).2
    refine ⟨⟨p, hp, hc⟩, hS c (by simp), ih hl (Set.mem_insert c S) fun i hi ↦ ?_⟩
    rintro (rfl | hiS)
    · exact lt_irrefl _ (hl.idxOf_lt hi)
    · exact hS i (by simp [hi]) hiS

/-- Two links have at most one meet. -/
theorem IsMeet.eq {i j top top' : ι} (hi : i ∈ t.links) (h : IsMeet t i j top)
    (h' : IsMeet t i j top') : top = top' := by
  have key : ∀ {x y}, IsMeet t i j x → i ∈ t.below y → j ∈ t.below y → y ∈ t.below x → y = x := by
    intro x y hx hiy hjy hyx
    rcases t.mem_below_iff.1 hyx with rfl | ⟨c, hc, hyc⟩
    · rfl
    · exact absurd ⟨t.mem_below_trans hiy hyc, t.mem_below_trans hjy hyc⟩ (hx.2.2 c hc)
  rcases t.mem_below_or_mem_below hi h.1 h'.1 with hle | hle
  · exact key h' h.1 h.2.1 hle
  · exact (key h h'.1 h'.2.1 hle).symm

variable {ups downs : List ι} {base endLink top : ι}

theorem IsPath.mem_below_top (h : IsPath t base endLink ups top downs) :
    endLink ∈ t.below top :=
  h.descends.mem_below (List.mem_of_getLast? h.last)

theorem IsPath.base_mem_below (h : IsPath t base endLink ups top downs)
    (hi : i ∈ ups ++ [top]) : base ∈ t.below i := by
  obtain ⟨l, hl⟩ : ∃ l, ups ++ [top] = base :: l := List.head?_eq_some_iff.1 h.head
  have hasc := h.ascends
  rw [hl] at hasc hi
  exact hasc.mem_below hi

/-- A path turns at the meet of its ends. -/
theorem IsPath.isMeet (h : IsPath t base endLink ups top downs) :
    IsMeet t base endLink top := by
  refine ⟨h.base_mem_below (by simp), h.mem_below_top, fun c hc hbelow ↦ ?_⟩
  have hct : t.parent c = some top := t.mem_children.1 hc
  rcases List.eq_nil_or_concat ups with rfl | ⟨l, u, rfl⟩
  · obtain rfl : top = base := by simpa using h.head
    exact t.notMem_below_of_parent hct hbelow.1
  · -- the last link of the upward part is a child of `top` as well, with `base` below it
    have hu : t.parent u = some top := by
      have hasc := h.ascends
      rw [List.concat_eq_append, List.append_assoc, Ascends, List.isChain_append] at hasc
      have hpair : Ascends t [u, top] := hasc.2.1
      exact (List.isChain_cons_cons.1 hpair).1
    have hbase : base ∈ t.below u := h.base_mem_below (by simp)
    have hcu : c = u := t.eq_of_mem_below_children hct hu hbelow.1 hbase
    exact h.notMem u (by simp) (hcu ▸ hbelow.2)

/-- The downward part of a path does not have `base` below it. -/
theorem IsPath.base_notMem (h : IsPath t base endLink ups top downs)
    (hi : i ∈ downs) : base ∉ t.below i := by
  intro hbase
  cases downs with
  | nil => simp at hi
  | cons c l =>
    have hc : t.parent c = some top := (List.isChain_cons_cons.1 h.descends).1
    have hl : Chains t (c :: l) := (List.isChain_cons_cons.1 h.descends).2
    have hend : endLink ∈ t.below c := h.descends.last_mem_below h.last (by simp)
    exact h.isMeet.2.2 c (t.mem_children.2 hc) ⟨t.mem_below_trans hbase (hl.mem_below hi), hend⟩

theorem Ascends.nodup (h : Ascends t l) : l.Nodup := by
  induction l with
  | nil => exact List.nodup_nil
  | cons c l ih =>
    refine List.nodup_cons.2 ⟨fun hc ↦ lt_irrefl _ (h.idxOf_lt hc), ih ?_⟩
    exact (List.isChain_cons.1 h).2

theorem Chains.nodup (h : Chains t l) : l.Nodup := by
  induction l with
  | nil => exact List.nodup_nil
  | cons c l ih =>
    refine List.nodup_cons.2 ⟨fun hc ↦ lt_irrefl _ (h.idxOf_lt hc), ih ?_⟩
    exact (List.isChain_cons.1 h).2

theorem IsPath.nodup (h : IsPath t base endLink ups top downs) :
    (ups ++ top :: downs).Nodup := by
  have hups := List.nodup_append.1 h.ascends.nodup
  refine List.nodup_append.2 ⟨hups.1, h.descends.nodup, fun i hi j hj ↦ ?_⟩
  rcases List.mem_cons.1 hj with rfl | hj
  · exact hups.2.2 i hi j (by simp)
  · rintro rfl
    exact h.base_notMem hj (h.base_mem_below (List.mem_append_left _ hi))

/-- The turning link is the first of the path in the order of the tree. -/
theorem IsPath.idxOf_top_le (h : IsPath t base endLink ups top downs)
    (hi : i ∈ ups ++ top :: downs) : t.links.idxOf top ≤ t.links.idxOf i := by
  rcases List.mem_append.1 hi with hi | hi
  · obtain ⟨l, l', rfl⟩ := List.append_of_mem hi
    have hasc := h.ascends
    rw [List.append_assoc, Ascends, List.isChain_append] at hasc
    have hi : Ascends t (i :: (l' ++ [top])) := hasc.2.1
    exact (hi.idxOf_lt (by simp)).le
  · rcases List.mem_cons.1 hi with rfl | hi
    · exact le_rfl
    · exact (h.descends.idxOf_lt hi).le

/-- Forward kinematics can run along a path. -/
theorem IsPath.exists_isTraverse (h : IsPath t base endLink ups top downs) :
    ∃ ups', ups ++ [top] = base :: ups' ∧
      IsTraverse t base ups' downs ⟨ups ++ top :: downs, ups.length⟩ := by
  obtain ⟨ups', heq⟩ : ∃ l, ups ++ [top] = base :: l := List.head?_eq_some_iff.1 h.head
  have hlen : ups.length = ups'.length := by
    have h := congrArg List.length heq
    simp only [List.length_append, List.length_cons, List.length_nil] at h
    omega
  refine ⟨ups', heq, ⟨?_, heq ▸ h.ascends, ?_⟩⟩
  · rw [hlen, ← List.cons_append, ← heq]
    simp
  · refine h.descends.descends (p := top) ?_ fun i hi hmem ↦ ?_
    · show top ∈ base :: ups'
      rw [← heq]
      simp
    · have hiu : i ∈ ups ++ [top] := heq ▸ hmem
      exact h.base_notMem hi (h.base_mem_below hiu)

end IsPath

/-! ### Finding the path -/

/-- Runs `f` on the elements of a list until it reports success, handing on the state. -/
def tryEach (f : ι → σ → Bool × σ) : List ι → σ → Bool × σ
  | [], s => (false, s)
  | i :: l, s => if (f i s).1 then f i s else tryEach f l (f i s).2

theorem tryEach_of_fails {f : ι → σ → Bool × σ} {l : List ι} {s : σ}
    (h : ∀ i ∈ l, f i s = (false, s)) : tryEach f l s = (false, s) := by
  induction l with
  | nil => rfl
  | cons i l ih =>
    rw [tryEach, h i (by simp), if_neg (by simp)]
    exact ih fun j hj ↦ h j (by simp [hj])

theorem tryEach_of_finds {f : ι → σ → Bool × σ} {l : List ι} {s : σ} {i : ι} (hi : i ∈ l)
    (hfind : (f i s).1 = true) (hfail : ∀ j ∈ l, j ≠ i → f j s = (false, s)) :
    tryEach f l s = f i s := by
  induction l with
  | nil => simp at hi
  | cons j l ih =>
    rw [tryEach]
    by_cases hji : j = i
    · rw [hji, if_pos hfind]
    · rw [hfail j (by simp) hji, if_neg (by simp)]
      exact ih ((List.mem_cons.1 hi).resolve_left (Ne.symm hji))
        fun k hk ↦ hfail k (by simp [hk])

namespace LinkPath

variable [DecidableEq ι]

/-- `links.pop_back()`, taking an upward connection back. -/
def pop (tr : LinkTraverse ι) (isUpward : Bool) : LinkTraverse ι :=
  ⟨tr.links.dropLast,
    if isUpward then tr.numUpwardConnections - 1 else tr.numUpwardConnections⟩

omit [DecidableEq ι] in
@[simp]
theorem pop_push (tr : LinkTraverse ι) (link : ι) (isUpward : Bool) :
    pop (tr.push link isUpward) isUpward = tr := by
  cases isUpward <;> simp [pop, LinkTraverse.push]

/-- `LinkPath::findPathSub`. The first number bounds the recursion; out of it, nothing is found. -/
def findPathSub (t : LinkTree ι) (endLink : ι) :
    ℕ → ι → Option ι → Bool → LinkTraverse ι → Bool × LinkTraverse ι
  | 0, _, _, _, tr => (false, tr)
  | depth + 1, link, prev, isUpward, tr =>
    if link = endLink then (true, tr.push link isUpward)
    else
      let byChild := tryEach
        (fun child ↦ findPathSub t endLink depth child (some link) false)
        ((t.children link).filter fun child ↦ some child ≠ prev) (tr.push link isUpward)
      if byChild.1 then byChild
      else
        let byParent := tryEach
          (fun parent ↦ findPathSub t endLink depth parent (some link) true)
          ((t.parent link).toList.filter fun parent ↦ some parent ≠ prev) byChild.2
        if byParent.1 then byParent else (false, pop byParent.2 isUpward)

/-- `LinkPath::find(base, end)`: whether a path was found, and the path left behind. The search
never stands on more links than the path up to the root and down again has. -/
def find (t : LinkTree ι) (base endLink : ι) : Bool × LinkTraverse ι :=
  let r := findPathSub t endLink (2 * t.links.length) base none false ⟨[], 0⟩
  if r.1 then r else (false, ⟨[], r.2.numUpwardConnections⟩)

variable {t : LinkTree ι} {endLink : ι} {depth : ℕ}

/-- Going down where `endLink` is not below finds nothing and leaves the path as it was. -/
theorem findPathSub_of_notMem {link : ι} (h : endLink ∉ t.below link) (isUpward : Bool)
    (tr : LinkTraverse ι) :
    findPathSub t endLink depth link (t.parent link) isUpward tr = (false, tr) := by
  induction depth generalizing link isUpward tr with
  | zero => rfl
  | succ depth ih =>
    have hne : link ≠ endLink := by
      rintro rfl
      exact h List.mem_cons_self
    have hchildren : ∀ c ∈ (t.children link).filter fun child ↦ some child ≠ t.parent link,
        findPathSub t endLink depth c (some link) false (tr.push link isUpward) =
          (false, tr.push link isUpward) := by
      intro c hc
      have hcl : t.parent c = some link := t.mem_children.1 (List.mem_of_mem_filter hc)
      rw [← hcl]
      exact ih (fun hend ↦ h (t.mem_below_iff.2 (.inr ⟨c, t.mem_children.2 hcl, hend⟩))) _ _
    have hparent : (t.parent link).toList.filter (fun p ↦ some p ≠ t.parent link) = [] := by
      cases t.parent link <;> simp
    rw [findPathSub, if_neg hne]
    simp only [tryEach_of_fails hchildren, hparent, tryEach, pop_push]
    simp

/-- The loop over the children finds what the child above `endLink` finds. -/
theorem tryEach_children {link c : ι} {prev : Option ι} {tr : LinkTraverse ι}
    (hc : t.parent c = some link) (hend : endLink ∈ t.below c) (hprev : some c ≠ prev)
    (hfind : (findPathSub t endLink depth c (some link) false tr).1 = true) :
    tryEach (fun child ↦ findPathSub t endLink depth child (some link) false)
        ((t.children link).filter fun child ↦ some child ≠ prev) tr =
      findPathSub t endLink depth c (some link) false tr := by
  refine tryEach_of_finds ?_ hfind fun j hj hjc ↦ ?_
  · exact List.mem_filter.2 ⟨t.mem_children.2 hc, by simpa using hprev⟩
  · have hjl : t.parent j = some link := t.mem_children.1 (List.mem_of_mem_filter hj)
    rw [← hjl]
    exact findPathSub_of_notMem
      (fun h ↦ hjc (t.eq_of_mem_below_children hjl hc h hend)) _ _

/-- Going down where `endLink` is below finds the way down. -/
theorem findPathSub_of_mem {link : ι} (hdepth : (t.below link).length ≤ depth)
    (h : endLink ∈ t.below link) (isUpward : Bool) (tr : LinkTraverse ι) :
    ∃ downs, findPathSub t endLink depth link (t.parent link) isUpward tr =
        (true, ⟨tr.links ++ link :: downs, (tr.push link isUpward).numUpwardConnections⟩) ∧
      Chains t (link :: downs) ∧ (link :: downs).getLast? = some endLink := by
  induction depth generalizing link isUpward tr with
  | zero => simp [LinkTree.below] at hdepth
  | succ depth ih =>
    by_cases hlink : link = endLink
    · exact ⟨[], by rw [findPathSub, if_pos hlink]; rfl, List.isChain_singleton _, by simp [hlink]⟩
    · obtain ⟨c, hc, hend⟩ := (t.mem_below_iff.1 h).resolve_left (Ne.symm hlink)
      have hcl : t.parent c = some link := t.mem_children.1 hc
      have hlt := t.length_below_lt hcl
      obtain ⟨downs, hfind, hchain, hlast⟩ :=
        ih (by omega) hend false (tr.push link isUpward)
      rw [hcl] at hfind
      have hprev : some c ≠ t.parent link := fun e ↦ by
        have h₁ := t.idxOf_parent_lt hcl
        have h₂ := t.idxOf_parent_lt e.symm
        omega
      refine ⟨c :: downs, ?_, List.isChain_cons_cons.2 ⟨hcl, hchain⟩, by simpa using hlast⟩
      rw [findPathSub, if_neg hlink]
      simp only [tryEach_children hcl hend hprev (by rw [hfind]), hfind, if_true]
      simp [LinkTraverse.push]

/-- The search finds a path when it has not yet looked at the side of `endLink`. -/
theorem findPathSub_of_up {link : ι} {prev : Option ι}
    (hdepth : t.links.length + t.links.idxOf link < depth) (hlink : link ∈ t.links)
    (hend : endLink ∈ t.links)
    (hprev : ∀ q, prev = some q → t.parent q = some link ∧ endLink ∉ t.below q) (isUpward : Bool)
    (tr : LinkTraverse ι) :
    ∃ ups top downs, findPathSub t endLink depth link prev isUpward tr =
        (true, ⟨tr.links ++ (ups ++ top :: downs),
          (tr.push link isUpward).numUpwardConnections + ups.length⟩) ∧
      IsPath t link endLink ups top downs := by
  induction depth generalizing link prev isUpward tr with
  | zero => omega
  | succ depth ih =>
    by_cases hle : link = endLink
    · refine ⟨[], link, [], by rw [findPathSub, if_pos hle]; rfl, ?_⟩
      exact ⟨List.isChain_singleton _, List.isChain_singleton _, rfl, by simp [hle], by simp⟩
    by_cases hbelow : endLink ∈ t.below link
    · -- the end is further down: it is below a child, and that child is not `prev`
      obtain ⟨c, hc, hendc⟩ := (t.mem_below_iff.1 hbelow).resolve_left (Ne.symm hle)
      have hcl : t.parent c = some link := t.mem_children.1 hc
      have hsize : (t.below c).length ≤ depth := by
        have h := (t.below_sublist (t.parent_mem hcl).2).length_le
        omega
      obtain ⟨downs, hfind, hchain, hlast⟩ :=
        findPathSub_of_mem hsize hendc false (tr.push link isUpward)
      rw [hcl] at hfind
      have hcprev : some c ≠ prev := fun e ↦ (hprev c e.symm).2 hendc
      refine ⟨[], link, c :: downs, ?_, List.isChain_singleton _,
        List.isChain_cons_cons.2 ⟨hcl, hchain⟩, rfl, by simpa using hlast, by simp⟩
      rw [findPathSub, if_neg hle]
      simp only [tryEach_children hcl hendc hcprev (by rw [hfind]), hfind, if_true]
      simp [LinkTraverse.push]
    · have hroot : link ≠ t.root := fun e ↦ hbelow (e ▸ t.below_root ▸ hend)
      obtain ⟨p, hp⟩ := t.exists_parent hlink hroot
      have hlt := t.idxOf_parent_lt hp
      have hfuel : t.links.length + t.links.idxOf p < depth := by omega
      have hback : ∀ q, some link = some q → t.parent q = some p ∧ endLink ∉ t.below q :=
        fun q hq ↦ Option.some_inj.1 hq ▸ ⟨hp, hbelow⟩
      obtain ⟨ups, top, downs, hfind, hpath⟩ := ih hfuel (t.parent_mem hp).1 hback true
        (tr.push link isUpward)
      have hchildren : ∀ c ∈ (t.children link).filter fun child ↦ some child ≠ prev,
          findPathSub t endLink depth c (some link) false (tr.push link isUpward) =
            (false, tr.push link isUpward) := by
        intro c hc
        have hcl : t.parent c = some link := t.mem_children.1 (List.mem_of_mem_filter hc)
        rw [← hcl]
        exact findPathSub_of_notMem
          (fun h ↦ hbelow (t.mem_below_iff.2 (.inr ⟨c, t.mem_children.2 hcl, h⟩))) _ _
      have hpprev : some p ≠ prev := fun e ↦ by
        have h := t.idxOf_parent_lt (hprev p e.symm).1
        omega
      have hparent : (t.parent link).toList.filter (fun q ↦ some q ≠ prev) = [p] := by
        rw [hp]
        simpa using hpprev
      refine ⟨link :: ups, top, downs, ?_, ?_⟩
      · rw [findPathSub, if_neg hle]
        simp only [tryEach_of_fails hchildren, hparent, tryEach, hfind, if_true]
        simp only [LinkTraverse.push, List.length_cons, List.cons_append, List.append_assoc,
          if_true]
        simp
        omega
      · refine ⟨?_, hpath.descends, by simp, hpath.last, ?_⟩
        · obtain ⟨l, hl⟩ : ∃ l, ups ++ [top] = p :: l := List.head?_eq_some_iff.1 hpath.head
          have hasc := hpath.ascends
          rw [List.cons_append, hl]
          rw [hl] at hasc
          exact List.isChain_cons_cons.2 ⟨hp, hasc⟩
        · intro i hi
          rcases List.mem_cons.1 hi with rfl | hi
          · exact hbelow
          · exact hpath.notMem i hi

/-- **`find` finds the path** between any two links of a tree. -/
theorem exists_find {base : ι} (hbase : base ∈ t.links) (hend : endLink ∈ t.links) :
    ∃ ups top downs, find t base endLink = (true, ⟨ups ++ top :: downs, ups.length⟩) ∧
      IsPath t base endLink ups top downs := by
  have hfuel : t.links.length + t.links.idxOf base < 2 * t.links.length := by
    have hidx := List.idxOf_lt_length_of_mem hbase
    omega
  have hnone : ∀ q, (none : Option ι) = some q → t.parent q = some base ∧ endLink ∉ t.below q :=
    fun _ h ↦ nomatch h
  obtain ⟨ups, top, downs, hfind, hpath⟩ :=
    findPathSub_of_up hfuel hbase hend hnone false ⟨[], 0⟩
  refine ⟨ups, top, downs, ?_, hpath⟩
  rw [find, hfind, if_pos rfl]
  simp [LinkTraverse.push]

end LinkPath

/-! ### The path from the root -/

section PathTo

variable [DecidableEq ι]

/-- The links of a sibling chain on the way down to `i`. -/
def LinkPtr.pathTo : LinkPtr ι → ι → List ι
  | null, _ => []
  | link l c s, i =>
    if i = l then [l] else if i ∈ c.links then l :: c.pathTo i else s.pathTo i

/-- The links from the root down to `i`. -/
def LinkTree.pathTo (t : LinkTree ι) (i : ι) : List ι :=
  if i = t.root then [i] else t.root :: t.child.pathTo i

theorem LinkPtr.pathTo_eq_append {p q i : ι} {ptr : LinkPtr ι} (hnd : ptr.links.Nodup)
    (hp : p ∉ ptr.links) (h : ptr.Joins p q i) :
    ptr.pathTo i = (if q = p then [] else ptr.pathTo q) ++ [i] := by
  induction ptr generalizing p with
  | null => exact h.elim
  | link l c s ihc ihs =>
    simp only [links_link, List.nodup_cons, List.mem_append, not_or, List.nodup_append] at hnd
    obtain ⟨⟨hlc, hls⟩, hc, hs, hcs⟩ := hnd
    simp only [links_link, List.mem_cons, List.mem_append, not_or] at hp
    obtain ⟨hpl, hpc, hps⟩ := hp
    rcases h with ⟨rfl, rfl⟩ | h | h
    · rw [pathTo, if_pos rfl, if_pos rfl, List.nil_append]
    · obtain ⟨hq, hi⟩ := h.mem
      have hil : i ≠ l := fun e ↦ hlc (e ▸ hi)
      rw [pathTo, if_neg hil, if_pos hi, ihc hc hlc h, pathTo]
      rcases List.mem_cons.1 hq with rfl | hq
      · rw [if_pos rfl, if_neg (Ne.symm hpl), if_pos rfl]
        rfl
      · have hql : q ≠ l := fun e ↦ hlc (e ▸ hq)
        have hqp : q ≠ p := fun e ↦ hpc (e ▸ hq)
        rw [if_neg hql, if_neg hqp, if_neg hql, if_pos hq, List.cons_append]
    · obtain ⟨hq, hi⟩ := h.mem
      have hil : i ≠ l := fun e ↦ hls (e ▸ hi)
      have hic : i ∉ c.links := fun hic ↦ hcs i hic i hi rfl
      rw [pathTo, if_neg hil, if_neg hic, ihs hs hps h]
      split_ifs with hqp
      · rfl
      · have hqs := (List.mem_cons.1 hq).resolve_left hqp
        have hql : q ≠ l := fun e ↦ hls (e ▸ hqs)
        have hqc : q ∉ c.links := fun hqc ↦ hcs q hqc q hqs rfl
        rw [pathTo, if_neg hql, if_neg hqc]

@[simp]
theorem LinkTree.pathTo_root (t : LinkTree ι) : t.pathTo t.root = [t.root] :=
  if_pos rfl

/-- The path to a child is the path to its parent and the child. -/
theorem LinkTree.pathTo_child {t : LinkTree ι} {p c : ι} (h : t.parent c = some p) :
    t.pathTo c = t.pathTo p ++ [c] := by
  rw [pathTo, pathTo, if_neg (t.ne_root_of_parent h),
    LinkPtr.pathTo_eq_append t.child_nodup t.root_notMem_child (t.parent_eq_some_iff.1 h)]
  split_ifs with hp
  · rw [hp]
    rfl
  · rfl

end PathTo

end OpenHRP
