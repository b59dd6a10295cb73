import OpenHRP.Foundations.Literals
import OpenHRP.Foundations.IntrusiveList
import Mathlib.Logic.Relation
import Mathlib.Order.Basic

/-!
# Link editing

`Link::addChild` and `Link::detachChild` edit a forest that is kept in four pointers of each link:
`parent`, `child` (the first child), `sibling` (the next child of the same parent) and `body`. The
loops over siblings and the recursion over the children are bounded by a number; out of it they
return nothing.

`LinkShape.IsForest` is what the three pointers of the shape keep through every edit: the children
of a link are threaded through their `sibling` pointers, they are the links whose `parent` it is,
and there is no way down that does not end. In a link that no edit is under way for, `body` is that
of the parent (`LinkHeap.SharesBody`). As long as no link is added below itself, both hold after
every run of edits, and every edit ends (`editing_preserves_tree`).
-/

namespace OpenHRP

variable {ι B : Type*}

/-! ### The program -/

/-- The pointers between links. -/
structure LinkShape (ι : Type*) where
  parent : ι → Option ι
  child : ι → Option ι
  sibling : ι → Option ι

/-- The pointers of links; `body` is null or a body. -/
structure LinkHeap (ι B : Type*) extends LinkShape ι where
  body : ι → Option B

namespace LinkHeap

variable [DecidableEq ι]

def setParent (h : LinkHeap ι B) (i : ι) (p : Option ι) : LinkHeap ι B :=
  { h with parent := Function.update h.parent i p }

def setChild (h : LinkHeap ι B) (i : ι) (c : Option ι) : LinkHeap ι B :=
  { h with child := Function.update h.child i c }

def setSibling (h : LinkHeap ι B) (i : ι) (s : Option ι) : LinkHeap ι B :=
  { h with sibling := Function.update h.sibling i s }

def setBody (h : LinkHeap ι B) (i : ι) (body : Option B) : LinkHeap ι B :=
  { h with body := Function.update h.body i body }

/-- `for(link = ...; link; link = link->sibling) link->setBodyIter(body)`. -/
def setBodyLoop (body : Option B) : ℕ → Option ι → LinkHeap ι B → Option (LinkHeap ι B)
  | _, none, h => some h
  | 0, some _, _ => none
  | fuel + 1, some link, h =>
    (setBodyLoop body fuel (h.child link) (h.setBody link body)).bind fun h ↦
      setBodyLoop body fuel (h.sibling link) h

/-- `Link::setBodyIter`. -/
def setBodyIter (fuel : ℕ) (this : ι) (body : Option B) (h : LinkHeap ι B) :
    Option (LinkHeap ι B) :=
  setBodyLoop body fuel (h.child this) (h.setBody this body)

/-- Makes the pointer to `link` skip it: that of the sibling before it, or the `child` pointer. -/
def cutOut (this link : ι) (prevSibling : Option ι) (h : LinkHeap ι B) : LinkHeap ι B :=
  match prevSibling with
  | some prev => h.setSibling prev (h.sibling link)
  | none => h.setChild this (h.sibling link)

/-- The loop of `detachChild`: whether the child was found and cut out. -/
def detachLoop (this childToRemove : ι) :
    ℕ → Option ι → Option ι → LinkHeap ι B → Option (Bool × LinkHeap ι B)
  | _, none, _, h => some (false, h)
  | 0, some _, _, _ => none
  | fuel + 1, some link, prevSibling, h =>
    if link = childToRemove then some (true, h.cutOut this link prevSibling)
    else detachLoop this childToRemove fuel (h.sibling link) (some link) h

/-- `Link::detachChild`. -/
def detachChild (fuel : ℕ) (this childToRemove : ι) (h : LinkHeap ι B) :
    Option (Bool × LinkHeap ι B) :=
  (detachLoop this childToRemove fuel (h.child this) none h).bind fun (removed, h) ↦
    if removed then
      (setBodyIter fuel childToRemove none
        ((h.setParent childToRemove none).setSibling childToRemove none)).map fun h ↦ (true, h)
    else some (false, h)

/-- `Link::addChild`. -/
def addChild (fuel : ℕ) (this link : ι) (h : LinkHeap ι B) : Option (LinkHeap ι B) :=
  ((h.parent link).elim (some h) fun parent ↦
    (detachChild fuel parent link h).map Prod.snd).bind fun h ↦
      let h := h.setSibling link (h.child this)
      let h := h.setParent link (some this)
      let h := h.setChild this (some link)
      setBodyIter fuel link (h.body this) h

end LinkHeap

/-! ### What the pointers show -/

namespace LinkShape

/-- `j` is `i` or below it. -/
def Below (S : LinkShape ι) : ι → ι → Prop :=
  Relation.ReflTransGen fun p c ↦ S.parent c = some p

/-- The pointers show a forest with the children given. -/
structure Shows (S : LinkShape ι) (children : ι → List ι) : Prop where
  threads : ∀ p, Threads S.sibling (S.child p) (children p)
  mem_children : ∀ p c, c ∈ children p ↔ S.parent c = some p
  /-- A link without a parent has no sibling. -/
  sibling_root : ∀ c, S.parent c = none → S.sibling c = none

/-- Every way along `parent` goes up in `height`, to some bound. -/
def Rises (S : LinkShape ι) (height : ι → ℕ) (top : ℕ) : Prop :=
  (∀ p c, S.parent c = some p → height c < height p) ∧ ∀ i, height i ≤ top

/-- The pointers show a forest of finite height. -/
def IsForest (S : LinkShape ι) : Prop :=
  (∃ children, S.Shows children) ∧ ∃ height top, S.Rises height top

end LinkShape

/-! ### Enough fuel -/

/-- With enough fuel, the result is `a`. -/
def Returns {α : Type*} (f : ℕ → Option α) (a : α) : Prop :=
  ∃ N, ∀ fuel, N ≤ fuel → f fuel = some a

namespace Returns

variable {α β : Type*} {f : ℕ → Option α} {a a' : α}

theorem unique (h : Returns f a) (h' : Returns f a') : a = a' := by
  obtain ⟨N, hN⟩ := h
  obtain ⟨N', hN'⟩ := h'
  exact Option.some_inj.1 ((hN _ (Nat.le_max_left N N')).symm.trans (hN' _ (Nat.le_max_right N N')))

theorem of_forall (h : ∀ fuel, f fuel = some a) : Returns f a :=
  ⟨0, fun fuel _ ↦ h fuel⟩

theorem of_succ (h : Returns (fun fuel ↦ f (fuel + 1)) a) : Returns f a := by
  obtain ⟨N, hN⟩ := h
  refine ⟨N + 1, fun fuel hfuel ↦ ?_⟩
  obtain ⟨fuel, rfl⟩ := Nat.exists_eq_add_of_le' (Nat.le_of_add_left_le hfuel)
  exact hN fuel (Nat.le_of_add_le_add_right hfuel)

theorem bind {g : ℕ → α → Option β} {b : β} (h : Returns f a)
    (hg : Returns (fun fuel ↦ g fuel a) b) : Returns (fun fuel ↦ (f fuel).bind (g fuel)) b := by
  obtain ⟨N, hN⟩ := h
  obtain ⟨N', hN'⟩ := hg
  refine ⟨max N N', fun fuel hfuel ↦ ?_⟩
  dsimp only
  rw [hN fuel (Nat.max_le.1 hfuel).1]
  exact hN' fuel (Nat.max_le.1 hfuel).2

theorem map (g : α → β) (h : Returns f a) : Returns (fun fuel ↦ (f fuel).map g) (g a) := by
  obtain ⟨N, hN⟩ := h
  exact ⟨N, fun fuel hfuel ↦ congrArg (Option.map g) (hN fuel hfuel)⟩

end Returns

/-! ### Passing the body down -/

namespace LinkShape

variable {S : LinkShape ι} {children : ι → List ι} {i j : ι}

theorem below_refl (S : LinkShape ι) (i : ι) : S.Below i i :=
  .refl

/-- What is below a link is the link, or below one of its children. -/
theorem Shows.below_iff (hS : S.Shows children) :
    S.Below i j ↔ i = j ∨ ∃ c ∈ children i, S.Below c j := by
  rw [Below, Relation.ReflTransGen.cases_head_iff]
  exact or_congr_right (exists_congr fun c ↦ and_congr_left fun _ ↦ (hS.mem_children i c).symm)

theorem Rises.le_of_below {height : ι → ℕ} {top : ℕ} (hrises : S.Rises height top)
    (h : S.Below i j) : height j ≤ height i := by
  induction h with
  | refl => exact Nat.le_refl _
  | tail _ hpc ih => exact Nat.le_trans (Nat.le_of_lt (hrises.1 _ _ hpc)) ih

theorem Rises.exists_root {height : ι → ℕ} {top : ℕ} (hrises : S.Rises height top) (i : ι) :
    ∃ r, S.Below r i ∧ S.parent r = none := by
  induction hn : top - height i using Nat.strongRecOn generalizing i with
  | _ n ih =>
    rcases hp : S.parent i with _ | p
    · exact ⟨i, S.below_refl i, hp⟩
    · have hlt := hrises.1 p i hp
      have hle := hrises.2 p
      obtain ⟨r, hr, hroot⟩ := ih (top - height p) (by omega) p rfl
      exact ⟨r, hr.tail hp, hroot⟩

end LinkShape

namespace LinkHeap

/-- `h'` is `h` but for the bodies of the links below those of the list. -/
structure Paints (S : LinkShape ι) (l : List ι) (body : Option B) (h h' : LinkHeap ι B) :
    Prop where
  shape : h'.toLinkShape = S
  body_below : ∀ x ∈ l, ∀ j, S.Below x j → h'.body j = body
  body_other : ∀ j, (∀ x ∈ l, ¬S.Below x j) → h'.body j = h.body j

variable {S : LinkShape ι} {children : ι → List ι} {height : ι → ℕ} {top : ℕ} {body : Option B}

theorem Paints.cons {x : ι} {l : List ι} {h h₁ h₂ : LinkHeap ι B} (hx : Paints S [x] body h h₁)
    (hl : Paints S l body h₁ h₂) : Paints S (x :: l) body h h₂ := by
  refine ⟨hl.shape, fun y hy j hj ↦ ?_, fun j hj ↦ ?_⟩
  · by_cases hlater : ∃ z ∈ l, S.Below z j
    · obtain ⟨z, hz, hzj⟩ := hlater
      exact hl.body_below z hz j hzj
    · obtain rfl : y = x := (List.mem_cons.1 hy).resolve_right fun hy ↦ hlater ⟨y, hy, hj⟩
      rw [hl.body_other j fun z hz hzj ↦ hlater ⟨z, hz, hzj⟩]
      exact hx.body_below y (List.mem_singleton_self y) j hj
  · rw [hl.body_other j fun z hz ↦ hj z (List.mem_cons_of_mem x hz)]
    exact hx.body_other j fun z hz ↦ hj z (List.mem_singleton.1 hz ▸ List.mem_cons_self)

variable [DecidableEq ι]

/-- A link and what is below its children. -/
theorem Paints.of_children {x : ι} {h h' : LinkHeap ι B} (hS : S.Shows children)
    (hpaints : Paints S (children x) body (h.setBody x body) h') : Paints S [x] body h h' := by
  refine ⟨hpaints.shape, fun y hy j hj ↦ ?_, fun j hj ↦ ?_⟩
  · obtain rfl := List.mem_singleton.1 hy
    by_cases hchild : ∃ c ∈ children y, S.Below c j
    · obtain ⟨c, hc, hcj⟩ := hchild
      exact hpaints.body_below c hc j hcj
    · obtain rfl : y = j := (hS.below_iff.1 hj).resolve_right hchild
      rw [hpaints.body_other y fun c hc hcj ↦ hchild ⟨c, hc, hcj⟩]
      exact Function.update_self _ _ _
  · have hx : ¬S.Below x j := hj x (List.mem_singleton_self x)
    have hne : j ≠ x := fun e ↦ hx (e.symm ▸ S.below_refl x)
    rw [hpaints.body_other j fun c hc hcj ↦ hx (hS.below_iff.2 (.inr ⟨c, hc, hcj⟩))]
    exact Function.update_of_ne hne _ _

/-- The loop over siblings ends when it ends below each of them. -/
theorem setBodyLoop_returns_of {l : List ι} {ptr : Option ι} {h : LinkHeap ι B}
    (hS : S.Shows children) (hshape : h.toLinkShape = S) (hl : Threads S.sibling ptr l)
    (hdown : ∀ x ∈ l, ∀ h : LinkHeap ι B, h.toLinkShape = S →
      ∃ h', Returns (fun fuel ↦ setBodyLoop body fuel (S.child x) h) h' ∧
        Paints S (children x) body h h') :
    ∃ h', Returns (fun fuel ↦ setBodyLoop body fuel ptr h) h' ∧ Paints S l body h h' := by
  induction l generalizing ptr h with
  | nil =>
    obtain rfl : ptr = none := hl
    refine ⟨h, .of_forall fun fuel ↦ ?_, hshape, by simp, fun _ _ ↦ rfl⟩
    rcases fuel with _ | fuel <;> rfl
  | cons x l ih =>
    obtain ⟨rfl, hl⟩ := hl
    obtain ⟨h₁, hreturns, hpaints⟩ := hdown x List.mem_cons_self (h.setBody x body) hshape
    obtain ⟨h₂, hreturns', hpaints'⟩ := ih hpaints.shape hl
      fun y hy ↦ hdown y (List.mem_cons_of_mem x hy)
    refine ⟨h₂, .of_succ (.bind (a := h₁) ?_ ?_), (hpaints.of_children hS).cons hpaints'⟩
    · rwa [← hshape] at hreturns
    · rwa [← hpaints.shape] at hreturns'

variable {h : LinkHeap ι B}

/-- The recursion over the children ends, since there is no way down that does not. -/
theorem setBodyLoop_returns (hS : S.Shows children) (hrises : S.Rises height top) (body : Option B)
    (x : ι) (hshape : h.toLinkShape = S) :
    ∃ h', Returns (fun fuel ↦ setBodyLoop body fuel (S.child x) h) h' ∧
      Paints S (children x) body h h' := by
  induction hn : height x using Nat.strongRecOn generalizing x h with
  | _ n ih =>
    refine setBodyLoop_returns_of hS hshape (hS.threads x) fun c hc h' hh' ↦ ?_
    have hlt := hrises.1 x c ((hS.mem_children x c).1 hc)
    exact ih (height c) (hn ▸ hlt) c hh' rfl

/-- `setBodyIter` gives the body to a link and everything below it. -/
theorem setBodyIter_returns (hS : S.Shows children) (hrises : S.Rises height top) (body : Option B)
    (x : ι) (hshape : h.toLinkShape = S) :
    ∃ h', Returns (fun fuel ↦ setBodyIter fuel x body h) h' ∧ Paints S [x] body h h' := by
  obtain ⟨h', hreturns, hpaints⟩ := setBodyLoop_returns hS hrises body x
    (h := h.setBody x body) hshape
  refine ⟨h', ?_, hpaints.of_children hS⟩
  rwa [← hshape] at hreturns

/-! ### Cutting a child out -/

variable {this c : ι}

theorem detachLoop_of_notMem {l : List ι} {ptr prev : Option ι} (hl : Threads h.sibling ptr l)
    (hc : c ∉ l) : Returns (fun fuel ↦ detachLoop this c fuel ptr prev h) (false, h) := by
  induction l generalizing ptr prev with
  | nil =>
    obtain rfl : ptr = none := hl
    exact .of_forall fun fuel ↦ by rcases fuel with _ | fuel <;> rfl
  | cons x l ih =>
    obtain ⟨rfl, hl⟩ := hl
    obtain ⟨hxc, hc⟩ := not_or.1 (fun h ↦ hc (List.mem_cons.2 h))
    refine .of_succ ?_
    simp only [detachLoop, if_neg (Ne.symm hxc)]
    exact ih hl hc

variable {l₁ l₂ : List ι}

theorem detachLoop_of_mem {ptr prev : Option ι} (hl : Threads h.sibling ptr (l₁ ++ c :: l₂)) :
    Returns (fun fuel ↦ detachLoop this c fuel ptr prev h)
      (true, h.cutOut this c (l₁.getLast?.or prev)) := by
  induction l₁ generalizing ptr prev with
  | nil =>
    obtain ⟨rfl, -⟩ := hl
    exact .of_succ (.of_forall fun fuel ↦ by rw [detachLoop, if_pos rfl]; rfl)
  | cons x l₁ ih =>
    have hxc : x ≠ c := by
      rintro rfl
      exact (List.nodup_cons.1 hl.nodup).1 (by simp)
    obtain ⟨rfl, hl⟩ := hl
    have hlast : (x :: l₁).getLast?.or prev = l₁.getLast?.or (some x) := by
      rw [List.getLast?_cons]
      rcases l₁.getLast? with _ | y <;> rfl
    refine .of_succ ?_
    simp only [detachLoop, if_neg hxc, hlast]
    exact ih hl

/-- Cutting a child out leaves the other children threaded, and other lists alone. -/
theorem threads_cutOut (hS : h.Shows children) (hl : children this = l₁ ++ c :: l₂) (q : ι) :
    Threads (h.cutOut this c l₁.getLast?).sibling ((h.cutOut this c l₁.getLast?).child q)
      (Function.update children this (l₁ ++ l₂) q) := by
  have hthis := hS.threads this
  rw [hl] at hthis
  rcases l₁.eq_nil_or_concat with rfl | ⟨l, a, rfl⟩
  · -- the first child: the `child` pointer changes
    show Threads h.sibling (Function.update h.child this (h.sibling c) q) _
    rcases eq_or_ne q this with rfl | hq
    · rw [Function.update_self, Function.update_self]
      exact hthis.behind
    · rw [Function.update_of_ne hq, Function.update_of_ne hq]
      exact hS.threads q
  · -- a later child: the pointer of the sibling before it changes
    have hcut : h.cutOut this c (l.concat a).getLast? = h.setSibling a (h.sibling c) := by
      rw [List.concat_eq_append, List.getLast?_concat]
      rfl
    rw [hcut]
    show Threads (Function.update h.sibling a (h.sibling c)) (h.child q) _
    rw [List.concat_eq_append, List.append_assoc] at hthis ⊢
    rcases eq_or_ne q this with rfl | hq
    · rw [Function.update_self]
      exact hthis.cut
    · rw [Function.update_of_ne hq]
      refine (hS.threads q).congr fun x hx ↦ Function.update_of_ne ?_ _ _
      rintro rfl
      have hxq : h.parent x = some q := (hS.mem_children q x).1 hx
      have hxthis : h.parent x = some this :=
        (hS.mem_children this x).1 (by simp [hl])
      exact hq (Option.some_inj.1 (hxq.symm.trans hxthis))

theorem sibling_cutOut {this c x : ι} {l₁ : List ι} (hx : x ∉ l₁) :
    (h.cutOut this c l₁.getLast?).sibling x = h.sibling x := by
  rcases l₁.eq_nil_or_concat with rfl | ⟨l, a, rfl⟩
  · rfl
  · rw [List.concat_eq_append] at hx ⊢
    rw [List.getLast?_concat]
    exact Function.update_of_ne (fun e ↦ hx (by simp [e])) _ _

/-- The pointers after a child has been detached. -/
theorem shows_detached (hS : h.Shows children) (hl : children this = l₁ ++ c :: l₂) :
    (((h.cutOut this c l₁.getLast?).setParent c none).setSibling c none).Shows
      (Function.update children this (l₁ ++ l₂)) := by
  have hparent : (h.cutOut this c l₁.getLast?).parent = h.parent := by
    rcases l₁.getLast? with _ | a <;> rfl
  have hnd : (l₁ ++ c :: l₂).Nodup := hl ▸ (hS.threads this).nodup
  have hcl : c ∉ l₁ ++ l₂ := (List.nodup_middle.1 hnd).notMem
  have hmem : ∀ q x, x ∈ Function.update children this (l₁ ++ l₂) q ↔
      Function.update h.parent c none x = some q := by
    intro q x
    rcases eq_or_ne x c with rfl | hx
    · rw [Function.update_self]
      refine iff_of_false (fun hx ↦ ?_) (by simp)
      rcases eq_or_ne q this with rfl | hq
      · rw [Function.update_self] at hx
        exact hcl hx
      · rw [Function.update_of_ne hq] at hx
        have hxthis : h.parent x = some this := (hS.mem_children this x).1 (by simp [hl])
        exact hq (Option.some_inj.1 (((hS.mem_children q x).1 hx).symm.trans hxthis))
    · rw [Function.update_of_ne hx, ← hS.mem_children]
      rcases eq_or_ne q this with rfl | hq
      · rw [Function.update_self, hl]
        simp [hx]
      · rw [Function.update_of_ne hq]
  refine ⟨fun q ↦ ?_, fun q x ↦ ?_, fun x hx ↦ ?_⟩
  · refine (threads_cutOut hS hl q).congr fun x hx ↦ Function.update_of_ne ?_ _ _
    rintro rfl
    have hself := (hmem q x).1 hx
    rw [Function.update_self] at hself
    cases hself
  · show _ ↔ Function.update (h.cutOut this c l₁.getLast?).parent c none x = some q
    rw [hparent]
    exact hmem q x
  · rcases eq_or_ne x c with rfl | hxc
    · exact Function.update_self _ _ _
    · have hx : h.parent x = none := by
        have hx' : Function.update (h.cutOut this c l₁.getLast?).parent c none x = none := hx
        rwa [hparent, Function.update_of_ne hxc] at hx'
      have hxl : x ∉ l₁ := fun hxl ↦ by
        have hxthis : h.parent x = some this := (hS.mem_children this x).1 (by simp [hl, hxl])
        cases hx.symm.trans hxthis
      refine (Function.update_of_ne hxc _ _).trans ?_
      exact (sibling_cutOut hxl).trans (hS.sibling_root x hx)

/-! ### The invariant -/

/-- The body of a link is that of its parent. -/
def SharesBody (h : LinkHeap ι B) : Prop :=
  ∀ p c, h.parent c = some p → h.body c = h.body p

omit [DecidableEq ι] in
/-- Passing a body down from a link keeps the bodies shared, when everything else has them shared
and the parent of the link has that body. -/
theorem Paints.sharesBody {x : ι} {h h' : LinkHeap ι B} (hpaints : Paints S [x] body h h')
    (hshares : ∀ p c, S.parent c = some p → c ≠ x → h.body c = h.body p)
    (hx : ∀ p, S.parent x = some p → ¬S.Below x p ∧ h.body p = body) : h'.SharesBody := by
  intro p c hpc
  rw [hpaints.shape] at hpc
  have hbelow {j : ι} (hj : S.Below x j) : h'.body j = body :=
    hpaints.body_below x (List.mem_singleton_self x) j hj
  have hother {j : ι} (hj : ¬S.Below x j) : h'.body j = h.body j :=
    hpaints.body_other j fun z hz ↦ List.mem_singleton.1 hz ▸ hj
  by_cases hp : S.Below x p
  · rw [hbelow hp, hbelow (hp.tail hpc)]
  · rw [hother hp]
    rcases eq_or_ne c x with rfl | hcx
    · rw [hbelow (S.below_refl c), (hx p hpc).2]
    · have hc : ¬S.Below x c := fun hc ↦ by
        rcases hc.cases_tail with h | ⟨q, hq, hqc⟩
        · exact hcx h
        · exact hp (Option.some_inj.1 (hpc.symm.trans hqc) ▸ hq)
      rw [hother hc, hshares p c hpc hcx]

/-- What holds between two edits. -/
structure Consistent (h : LinkHeap ι B) : Prop where
  isForest : h.IsForest
  sharesBody : h.SharesBody

/-- `detachChild` with something else than a child. -/
theorem detachChild_of_ne (hh : h.Consistent) (hc : h.parent c ≠ some this) :
    Returns (fun fuel ↦ detachChild fuel this c h) (false, h) := by
  obtain ⟨⟨children, hS⟩, -⟩ := hh.isForest
  have hloop : Returns (fun fuel ↦ detachLoop this c fuel (h.child this) none h) (false, h) :=
    detachLoop_of_notMem (hS.threads this) fun h ↦ hc ((hS.mem_children this c).1 h)
  exact hloop.bind (.of_forall fun _ ↦ rfl)

/-- `detachChild` with a child takes it and what is below it out. -/
theorem detachChild_of_eq (hh : h.Consistent) (hc : h.parent c = some this) :
    ∃ h', Returns (fun fuel ↦ detachChild fuel this c h) (true, h') ∧ h'.Consistent ∧
      h'.parent = Function.update h.parent c none := by
  obtain ⟨⟨children, hS⟩, height, top, hrises⟩ := hh.isForest
  obtain ⟨l₁, l₂, hl⟩ := List.append_of_mem ((hS.mem_children this c).2 hc)
  have hthreads := hS.threads this
  rw [hl] at hthreads
  have hloop : Returns (fun fuel ↦ detachLoop this c fuel (h.child this) none h)
      (true, h.cutOut this c (l₁.getLast?.or none)) := detachLoop_of_mem hthreads
  rw [Option.or_none] at hloop
  set cut := h.cutOut this c l₁.getLast? with hcut
  have hcutParent : cut.parent = h.parent := by
    rw [hcut]
    rcases l₁.getLast? with _ | a <;> rfl
  have hcutBody : cut.body = h.body := by
    rw [hcut]
    rcases l₁.getLast? with _ | a <;> rfl
  set detached := (cut.setParent c none).setSibling c none with hdetached
  have hparent : detached.parent = Function.update h.parent c none := by
    rw [← hcutParent]
    rfl
  have hkept {p x : ι} (hp : detached.parent x = some p) : x ≠ c ∧ h.parent x = some p := by
    rw [hparent] at hp
    rcases eq_or_ne x c with rfl | hx
    · rw [Function.update_self] at hp
      cases hp
    · exact ⟨hx, by rwa [Function.update_of_ne hx] at hp⟩
  have hS' : detached.Shows _ := shows_detached hS hl
  have hrises' : detached.Rises height top :=
    ⟨fun p x hp ↦ hrises.1 p x (hkept hp).2, hrises.2⟩
  obtain ⟨h', hreturns, hpaints⟩ := setBodyIter_returns hS' hrises' none c rfl
  refine ⟨h', hloop.bind (hreturns.map fun h ↦ (true, h)), ⟨⟨?_, ?_⟩, ?_⟩, ?_⟩
  · exact hpaints.shape ▸ ⟨_, hS'⟩
  · exact hpaints.shape ▸ ⟨height, top, hrises'⟩
  · refine hpaints.sharesBody (fun p x hp _ ↦ ?_) fun p hp ↦ absurd rfl (hkept hp).1
    show cut.body x = cut.body p
    rw [hcutBody]
    exact hh.sharesBody p x (hkept hp).2
  · rw [← hparent, ← hpaints.shape]

/-- Hanging a link without a parent in front of the children of another. -/
def hang (this link : ι) (h : LinkHeap ι B) : LinkHeap ι B :=
  ((h.setSibling link (h.child this)).setParent link (some this)).setChild this (some link)

variable {this link : ι}

theorem shows_hang (hS : h.Shows children) (hroot : h.parent link = none) :
    (h.hang this link).Shows (Function.update children this (link :: children this)) := by
  have hlink (q : ι) : link ∉ children q := fun hq ↦ by
    cases hroot.symm.trans ((hS.mem_children q link).1 hq)
  refine ⟨fun q ↦ ?_, fun q x ↦ ?_, fun x hx ↦ ?_⟩
  · show Threads (Function.update h.sibling link (h.child this))
      (Function.update h.child this (some link) q) _
    rcases eq_or_ne q this with rfl | hq
    · rw [Function.update_self, Function.update_self]
      exact (hS.threads q).cons (hlink q)
    · rw [Function.update_of_ne hq, Function.update_of_ne hq]
      exact (hS.threads q).congr fun x hx ↦
        Function.update_of_ne (ne_of_mem_of_not_mem hx (hlink q)) _ _
  · show _ ↔ Function.update h.parent link (some this) x = some q
    rcases eq_or_ne x link with rfl | hx
    · rw [Function.update_self, Option.some_inj]
      rcases eq_or_ne q this with rfl | hq
      · simp
      · simp [Function.update_of_ne hq, hlink q, Ne.symm hq]
    · rw [Function.update_of_ne hx, ← hS.mem_children]
      rcases eq_or_ne q this with rfl | hq
      · simp [hx]
      · rw [Function.update_of_ne hq]
  · have hx' : Function.update h.parent link (some this) x = none := hx
    have hne : x ≠ link := by
      rintro rfl
      rw [Function.update_self] at hx'
      cases hx'
    rw [Function.update_of_ne hne] at hx'
    exact (Function.update_of_ne hne _ _).trans (hS.sibling_root x hx')

/-- The links above the new parent are raised above the whole tree hung below it. -/
theorem exists_rises_hang (hrises : h.Rises height top) (hbelow : ¬h.Below link this) :
    ∃ height top, (h.hang this link).Rises height top := by
  classical
  refine ⟨fun i ↦ if h.Below i this then height i + (top + 1) else height i, top + (top + 1),
    fun p x hp ↦ ?_, fun i ↦ ?_⟩
  · have hp' : Function.update h.parent link (some this) x = some p := hp
    dsimp only
    rcases eq_or_ne x link with rfl | hx
    · rw [Function.update_self] at hp'
      obtain rfl := Option.some_inj.1 hp'
      rw [if_neg hbelow, if_pos (h.below_refl this)]
      have hle := hrises.2 x
      omega
    · rw [Function.update_of_ne hx] at hp'
      have hlt := hrises.1 p x hp'
      split
      · next hx =>
        have hp'' : h.Below p this :=
          Relation.ReflTransGen.head (r := fun p c ↦ h.parent c = some p) hp' hx
        rw [if_pos hp'']
        omega
      · split <;> omega
  · have hle := hrises.2 i
    dsimp only
    split <;> omega

/-- `addChild` with a link that has no parent. -/
theorem addRoot_returns (hh : h.Consistent) (hroot : h.parent link = none)
    (hbelow : ¬h.Below link this) :
    ∃ h', Returns (fun fuel ↦ setBodyIter fuel link (h.body this) (h.hang this link)) h' ∧
      h'.Consistent := by
  obtain ⟨⟨children, hS⟩, height, top, hrises⟩ := hh.isForest
  have hS' : (h.hang this link).Shows (Function.update children this (link :: children this)) :=
    shows_hang hS hroot
  obtain ⟨height', top', hrises'⟩ := exists_rises_hang hrises hbelow
  obtain ⟨h', hreturns, hpaints⟩ := setBodyIter_returns hS' hrises' (h.body this) link rfl
  refine ⟨h', hreturns, ⟨?_, ?_⟩, ?_⟩
  · exact hpaints.shape ▸ ⟨_, hS'⟩
  · exact hpaints.shape ▸ ⟨height', top', hrises'⟩
  · refine hpaints.sharesBody (fun p x hp hx ↦ ?_) fun p hp ↦ ⟨fun hlp ↦ ?_, ?_⟩
    · have hp' : Function.update h.parent link (some this) x = some p := hp
      rw [Function.update_of_ne hx] at hp'
      exact hh.sharesBody p x hp'
    · -- a way from `link` to its parent would go up for ever
      exact absurd (hrises'.1 p link hp) (Nat.not_lt.2 (hrises'.le_of_below hlp))
    · have hp' : Function.update h.parent link (some this) link = some p := hp
      rw [Function.update_self] at hp'
      rw [Option.some_inj.1 hp']
      rfl

theorem addChild_returns (hh : h.Consistent) (hbelow : ¬h.Below link this) :
    ∃ h', Returns (fun fuel ↦ addChild fuel this link h) h' ∧ h'.Consistent := by
  rcases hparent : h.parent link with _ | parent
  · obtain ⟨h', hreturns, hh'⟩ := addRoot_returns hh hparent hbelow
    refine ⟨h', ?_, hh'⟩
    simp only [addChild, hparent, Option.elim_none]
    exact hreturns
  · obtain ⟨h₁, hdetach, hh₁, hparent₁⟩ := detachChild_of_eq hh hparent
    have hroot : h₁.parent link = none := by
      rw [hparent₁]
      exact Function.update_self _ _ _
    have hkept (p c : ι) (hpc : h₁.parent c = some p) : h.parent c = some p := by
      rw [hparent₁, Function.update_apply] at hpc
      split_ifs at hpc
      exact hpc
    have hbelow₁ : ¬h₁.Below link this := fun hb ↦ hbelow (Relation.ReflTransGen.mono hkept _ _ hb)
    obtain ⟨h', hreturns, hh'⟩ := addRoot_returns hh₁ hroot hbelow₁
    refine ⟨h', ?_, hh'⟩
    simp only [addChild, hparent, Option.elim_some]
    exact (hdetach.map Prod.snd).bind hreturns

/-! ### Runs of edits -/

/-- The heaps that calls of `addChild` and `detachChild` lead to from single links, when no link is
added below itself. -/
inductive Edited : LinkHeap ι B → Prop
  | single (body : ι → Option B) :
    Edited ⟨⟨fun _ ↦ none, fun _ ↦ none, fun _ ↦ none⟩, body⟩
  | addChild {h h' : LinkHeap ι B} {this link : ι} : Edited h → ¬h.Below link this →
    Returns (fun fuel ↦ addChild fuel this link h) h' → Edited h'
  | detachChild {h h' : LinkHeap ι B} {this c : ι} {removed : Bool} : Edited h →
    Returns (fun fuel ↦ detachChild fuel this c h) (removed, h') → Edited h'

theorem Edited.consistent (hh : h.Edited) : h.Consistent := by
  induction hh with
  | single body =>
    have hshows : LinkShape.Shows (⟨fun _ ↦ none, fun _ ↦ none, fun _ ↦ none⟩ : LinkShape ι)
        fun _ ↦ [] := ⟨fun _ ↦ rfl, by simp, fun _ _ ↦ rfl⟩
    exact ⟨⟨⟨_, hshows⟩, fun _ ↦ 0, 0, nofun, fun _ ↦ Nat.le_refl 0⟩, nofun⟩
  | addChild _ hbelow hreturns ih =>
    obtain ⟨h', hreturns', hh'⟩ := addChild_returns ih hbelow
    exact hreturns.unique hreturns' ▸ hh'
  | @detachChild h h' this c removed _ hreturns ih =>
    by_cases hc : h.parent c = some this
    · obtain ⟨h'', hreturns', hh'', -⟩ := detachChild_of_eq ih hc
      obtain ⟨-, rfl⟩ := Prod.mk.inj (hreturns.unique hreturns')
      exact hh''
    · obtain ⟨-, rfl⟩ := Prod.mk.inj (hreturns.unique (detachChild_of_ne ih hc))
      exact ih

/-- The four pointers describe one forest: the siblings behind the first child of a link are a list
that ends, on which each link stands once that has it as its parent, and only those; every link is
below a root, and has its body. -/
structure KeepsTree (h : LinkHeap ι B) : Prop where
  siblings : ∀ p, ∃ l, Threads h.sibling (h.child p) l ∧ l.Nodup ∧
    ∀ c, c ∈ l ↔ h.parent c = some p
  sibling_root : ∀ c, h.parent c = none → h.sibling c = none
  body_root : ∀ i, ∃ r, h.Below r i ∧ h.parent r = none ∧ h.body i = h.body r

omit [DecidableEq ι] in
theorem Consistent.keepsTree (hh : h.Consistent) : h.KeepsTree := by
  obtain ⟨⟨children, hS⟩, height, top, hrises⟩ := hh.isForest
  refine ⟨fun p ↦ ⟨children p, hS.threads p, (hS.threads p).nodup, hS.mem_children p⟩,
    hS.sibling_root, fun i ↦ ?_⟩
  obtain ⟨r, hr, hroot⟩ := hrises.exists_root i
  refine ⟨r, hr, hroot, ?_⟩
  induction hr with
  | refl => rfl
  | tail _ hpc ih => rw [hh.sharesBody _ _ hpc, ih]

/-- **Link editing preserves the tree.** Every run of edits leaves one forest, in which `addChild`
and `detachChild` end; `detachChild` tells whether it was given a child, and changes nothing if
not. -/
theorem editing_preserves_tree {h : LinkHeap ι B} (hh : h.Edited) :
    h.KeepsTree ∧
      (∀ this link, ¬h.Below link this →
        ∃ h', Returns (fun fuel ↦ LinkHeap.addChild fuel this link h) h') ∧
      ∀ this c, ∃ removed h',
        Returns (fun fuel ↦ LinkHeap.detachChild fuel this c h) (removed, h') ∧
        (removed = true ↔ h.parent c = some this) ∧ (removed = false → h' = h) := by
  have hconsistent := hh.consistent
  refine ⟨hconsistent.keepsTree, fun this link hbelow ↦ ?_, fun this c ↦ ?_⟩
  · obtain ⟨h', hreturns, -⟩ := addChild_returns hconsistent hbelow
    exact ⟨h', hreturns⟩
  · by_cases hc : h.parent c = some this
    · obtain ⟨h', hreturns, -⟩ := detachChild_of_eq hconsistent hc
      exact ⟨true, h', hreturns, iff_of_true rfl hc, fun h ↦ absurd h.symm Bool.false_ne_true⟩
    · exact ⟨false, h, detachChild_of_ne hconsistent hc,
        iff_of_false Bool.false_ne_true hc, fun _ ↦ rfl⟩

/-- Two single links of which the first has a body, and the second is added below it. -/
theorem editing_preserves_tree_pair :
    ∃ h : LinkHeap (Fin 2) ℕ, h.Edited ∧ h.parent 1 = some 0 ∧ h.body 1 = some 7 ∧
      h.KeepsTree := by
  have hbelow : ¬LinkShape.Below (⟨fun _ ↦ none, fun _ ↦ none, fun _ ↦ none⟩ : LinkShape (Fin 2))
      1 0 := fun h ↦ by
    rcases h.cases_head with h | ⟨c, hc, -⟩
    · exact absurd h (by decide)
    · cases hc
  have hedited := (Edited.single (B := ℕ) fun i : Fin 2 ↦ if i = 0 then some 7 else none).addChild
    hbelow ⟨3, fun fuel hfuel ↦ by
      obtain ⟨fuel, rfl⟩ := Nat.exists_eq_add_of_le' hfuel
      rfl⟩
  exact ⟨_, hedited, rfl, rfl, (editing_preserves_tree hedited).1⟩

end LinkHeap

end OpenHRP
