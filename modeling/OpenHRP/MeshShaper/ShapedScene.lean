import OpenHRP.Foundations.Distinct
import OpenHRP.MeshShaper.SceneGraph

/-!
# The children that are left

When a scene graph is shaped, the children of its groups should be the original ones without the
Shapes that could not be converted. This is the case if and only if each Shape that fails is the
last child of its group and no Shape is met twice, but that a Shape that fails may be met several
times at one place of a group that `USE` puts at several places (`isShaped_iff`).
-/

namespace OpenHRP.TriangleMeshShaper

variable {N K : Type*}

/-! ### What is to be shown -/

/-- A node is reached from another one. -/
def Reaches (node : N → SceneNode N K) (a b : N) : Prop :=
  Relation.ReflTransGen (fun a b ↦ b ∈ (node a).targets) a b

section Statement

variable [DecidableEq N] (conv : List N → N → Bool) (G : SceneGraph N K)

/-- The conversion of a Shape fails, where the Shapes are converted in the order of a list. -/
def Fails (l : List N) (shape : N) : Prop :=
  conv (l.takeWhile (· ≠ shape)) shape = false

open Classical in
/-- Each Shape has been converted once, and the children of each group are the original ones without
the Shapes whose conversion failed. -/
structure IsShaped (top : N) (s : Shaping N K) : Prop where
  once : s.converted.Nodup
  every : ∀ shape, shape ∈ s.converted ↔ Reaches G.node top shape ∧ G.node shape = .shape
  children : ∀ g, Reaches G.node top g → (s.node g).children =
    (G.node g).children.filter fun c ↦
      ¬∃ shape, ResolvesTo G.node c shape ∧ Fails conv s.converted shape

/-- The Shapes in the order in which they are met first. -/
def firstShapes (V : List (Visit N)) : List N :=
  distinct (· = ·) (V.map Visit.shape)

/-- A Shape that fails is the last child of its group and can be removed; a Shape that is met again
fails and is met at the same place. -/
structure IsPlaced (l : List N) (V : List (Visit N)) : Prop where
  last : ∀ v ∈ V, Fails conv l v.shape → ∀ g i, v.place = some (g, i) →
    i + 1 = (G.node g).children.length ∧ ((G.node g).removeChild i).isSome
  once : V.Pairwise fun v w ↦ v.shape = w.shape →
    Fails conv l v.shape ∧ ∃ g i, v.place = some (g, i) ∧ w.place = some (g, i)

/-- The visits of a scene graph. -/
def SceneGraph.visits (top : N) : List (Visit N) :=
  TriangleMeshShaper.visits G.node (G.depth top + 1) top none

end Statement

/-! ### The order of the visits -/

section Order

variable {G : SceneGraph N K} {fuel : ℕ} {n g shape shape' : N} {place : Option (N × ℕ)} {i : ℕ}

theorem ResolvesTo.unique (h : ResolvesTo G.node n shape) (h' : ResolvesTo G.node n shape') :
    shape = shape' := by
  induction h with
  | shape hn =>
    cases h' with
    | shape _ => rfl
    | proto hn' _ => rw [hn] at hn'; cases hn'
  | proto hn _ ih =>
    cases h' with
    | shape hn' => rw [hn] at hn'; cases hn'
    | proto hn' h' =>
      rw [hn] at hn'
      cases hn'
      exact ih h'

theorem Visit.IsValid.shape_eq {v w : Visit N} (hv : v.IsValid G) (hw : w.IsValid G)
    (hplace : v.place = some (g, i)) (h : w.place = some (g, i)) : v.shape = w.shape := by
  obtain ⟨c, hc, hshape⟩ := hv g i hplace
  obtain ⟨c', hc', hshape'⟩ := hw g i h
  obtain rfl := Option.some.inj (hc.symm.trans hc')
  exact hshape.unique hshape'

theorem Visit.IsValid.lt_length {v : Visit N} (hv : v.IsValid G) (hplace : v.place = some (g, i)) :
    i < (G.node g).children.length := by
  obtain ⟨c, hc, -⟩ := hv g i hplace
  exact (List.getElem?_eq_some_iff.1 hc).1

/-- An element of a part of lists that are put together is in a part of one of them, and the lists
before it are in the part. -/
theorem mem_prefix_flatMap {α β : Type*} {f : α → List β} {w : β} {l : List α} {P : List β}
    (hP : P <+: l.flatMap f) (hw : w ∈ P) :
    ∃ l₁ a l₂ A, l = l₁ ++ a :: l₂ ∧ w ∈ A ∧ A <+: f a ∧ l₁.flatMap f ++ A <+: P := by
  induction l generalizing P with
  | nil =>
    obtain rfl := List.prefix_nil.1 hP
    exact absurd hw List.not_mem_nil
  | cons a l ih =>
    rw [List.flatMap_cons] at hP
    rcases List.prefix_or_prefix_of_prefix hP (List.prefix_append (f a) _) with hle | ⟨P', rfl⟩
    · exact ⟨[], a, l, P, rfl, hw, hle, List.prefix_rfl⟩
    · rcases List.mem_append.1 hw with hw | hw
      · exact ⟨[], a, l, f a, rfl, hw, List.prefix_rfl, List.prefix_append _ _⟩
      · obtain ⟨l₁, b, l₂, A, rfl, hA, hAb, hle⟩ := ih ((List.prefix_append_right_inj _).1 hP) hw
        refine ⟨a :: l₁, b, l₂, A, rfl, hA, hAb, ?_⟩
        rw [List.flatMap_cons, List.append_assoc]
        exact (List.prefix_append_right_inj _).2 hle

/-- The numbers below a number come before it. -/
theorem mem_of_range_eq_append {m k : ℕ} {l₁ l₂ : List ℕ} (h : List.range m = l₁ ++ k :: l₂)
    (hi : i < k) : i ∈ l₁ := by
  have hk : k < m := List.mem_range.1 (h ▸ List.mem_append_right l₁ List.mem_cons_self)
  have hmem : i ∈ l₁ ++ k :: l₂ := h ▸ List.mem_range.2 (Nat.lt_trans hi hk)
  have hsorted := h ▸ List.pairwise_lt_range (n := m)
  rcases List.mem_append.1 hmem with hmem | hmem
  · exact hmem
  · obtain ⟨-, hlater, -⟩ := List.pairwise_append.1 hsorted
    rcases List.mem_cons.1 hmem with rfl | hmem
    · exact absurd hi (Nat.lt_irrefl i)
    · exact absurd (List.rel_of_pairwise_cons hlater hmem) (Nat.lt_asymm hi)

/-- The children of a group are met in order: where one has been met, so have those before it. -/
theorem sibling_mem {P : List (Visit N)} {w : Visit N} {c : N} {j : ℕ}
    (hP : P <+: visits G.node fuel n place) (hw : w ∈ P) (hplace : w.place = some (g, j))
    (hg : G.depth g ≤ G.depth n) (houter : ∀ g i, place = some (g, i) → G.depth n < G.depth g)
    (hfuel : G.depth n < fuel) (hij : i < j) (hc : (G.node g).children[i]? = some c)
    (hshape : ResolvesTo G.node c shape) : ⟨shape, some (g, i)⟩ ∈ P := by
  induction fuel generalizing n place P with
  | zero => exact absurd hfuel (Nat.not_lt_zero _)
  | succ fuel ih =>
    have hmem : w ∈ visits G.node (fuel + 1) n place := hP.subset hw
    rcases hn : G.node n with - | ⟨kind, children⟩ | (- | actualNode) | -
    · rw [visits_shape hn] at hmem
      obtain rfl := List.mem_singleton.1 hmem
      exact absurd hg (Nat.not_le.2 (houter g j hplace))
    · rw [visits_group hn] at hP
      obtain ⟨l₁, k, l₂, A, hrange, hwA, hAk, hle⟩ := mem_prefix_flatMap hP hw
      have hk : k < children.length :=
        List.mem_range.1 (hrange ▸ List.mem_append_right l₁ List.mem_cons_self)
      have hck : children[k]? = some children[k] := List.getElem?_eq_getElem hk
      have hdepth := SceneGraph.depth_child_lt hn hck
      rw [hck, Option.elim] at hAk
      rcases place_of_mem_visits (hAk.subset hwA) with ⟨heq, -⟩ | ⟨g', j', d, heq, hle', -⟩
      · -- the visit is at child `k` of this group
        obtain ⟨rfl, rfl⟩ := Prod.mk.inj (Option.some.inj (hplace.symm.trans heq))
        refine hle.subset (List.mem_append_left _ (List.mem_flatMap.2
          ⟨i, mem_of_range_eq_append hrange hij, ?_⟩))
        rw [hn] at hc
        have hci := SceneGraph.depth_child_lt hn hc
        rw [show children[i]? = some c from hc, Option.elim,
          visits_of_resolvesTo hshape (by omega)]
        exact List.mem_singleton_self _
      · obtain ⟨rfl, rfl⟩ := Prod.mk.inj (Option.some.inj (hplace.symm.trans heq))
        refine hle.subset (List.mem_append_right _ (ih hAk hwA hle' (fun g' i' h ↦ ?_) (by omega)))
        obtain ⟨rfl, rfl⟩ := Prod.mk.inj (Option.some.inj h)
        exact hdepth
    · rw [visits_protoInstance hn] at hmem
      exact absurd hmem List.not_mem_nil
    · have hdepth := SceneGraph.depth_actualNode_lt hn
      rw [visits_protoInstance hn] at hP hmem
      rcases place_of_mem_visits hmem with ⟨heq, -⟩ | ⟨g', j', d, heq, hle', -⟩
      · exact absurd hg (Nat.not_le.2 (houter g j (heq.symm.trans hplace)))
      · obtain ⟨rfl, rfl⟩ := Prod.mk.inj (Option.some.inj (hplace.symm.trans heq))
        exact ih hP hw hle' (fun g' i' h ↦ Nat.lt_trans hdepth (houter g' i' h)) (by omega)
    · rw [visits_other hn] at hmem
      exact absurd hmem List.not_mem_nil

/-- The Shapes that are met are those that are reached. -/
theorem reaches_of_mem_visits {v : Visit N} (h : v ∈ visits G.node fuel n place) :
    Reaches G.node n v.shape ∧ G.node v.shape = .shape := by
  induction fuel generalizing n place with
  | zero => exact absurd h List.not_mem_nil
  | succ fuel ih =>
    rcases hn : G.node n with - | ⟨kind, children⟩ | (- | actualNode) | -
    · rw [visits_shape hn] at h
      obtain rfl := List.mem_singleton.1 h
      exact ⟨.refl, hn⟩
    · obtain ⟨i, c, hc, hv⟩ := (mem_visits_group hn).1 h
      obtain ⟨hreach, hshape⟩ := ih hv
      exact ⟨.head (hn ▸ List.mem_of_getElem? hc) hreach, hshape⟩
    · rw [visits_protoInstance hn] at h
      exact absurd h List.not_mem_nil
    · rw [visits_protoInstance hn] at h
      obtain ⟨hreach, hshape⟩ := ih h
      exact ⟨.head (hn ▸ List.mem_singleton_self actualNode) hreach, hshape⟩
    · rw [visits_other hn] at h
      exact absurd h List.not_mem_nil

/-- What is met from a node is met, wherever the node is reached. -/
theorem exists_mem_visits_of_reaches {b : N} (h : Reaches G.node n b) (hfuel : G.depth n < fuel)
    (place : Option (N × ℕ)) {Q : Visit N → Prop}
    (hQ : ∀ fuel place, G.depth b < fuel → ∃ v ∈ visits G.node fuel b place, Q v) :
    ∃ v ∈ visits G.node fuel n place, Q v := by
  induction h using Relation.ReflTransGen.head_induction_on generalizing fuel place with
  | refl => exact hQ fuel place hfuel
  | @head a c hac _ ih =>
    obtain ⟨fuel, rfl⟩ := Nat.exists_eq_succ_of_ne_zero (Nat.ne_zero_of_lt hfuel)
    have hdepth := G.depth_lt a c hac
    rcases ha : G.node a with - | ⟨kind, children⟩ | (- | actualNode) | - <;> rw [ha] at hac
    · exact absurd hac List.not_mem_nil
    · obtain ⟨i, hi⟩ := List.mem_iff_getElem?.1 hac
      obtain ⟨v, hv, hQv⟩ := ih (by omega : G.depth c < fuel) (some (a, i))
      exact ⟨v, (mem_visits_group ha).2 ⟨i, c, hi, hv⟩, hQv⟩
    · exact absurd hac List.not_mem_nil
    · obtain rfl := List.mem_singleton.1 hac
      obtain ⟨v, hv, hQv⟩ := ih (by omega : G.depth c < fuel) place
      refine ⟨v, ?_, hQv⟩
      rw [visits_protoInstance ha]
      exact hv
    · exact absurd hac List.not_mem_nil

/-- A child of a group that is reached is met. -/
theorem mem_visits_of_child {c : N} (h : Reaches G.node n g) (hfuel : G.depth n < fuel)
    (hc : (G.node g).children[i]? = some c) (hshape : ResolvesTo G.node c shape) :
    ⟨shape, some (g, i)⟩ ∈ visits G.node fuel n place := by
  obtain ⟨v, hv, rfl⟩ := exists_mem_visits_of_reaches h hfuel place
    (Q := fun v ↦ v = ⟨shape, some (g, i)⟩) fun fuel place hfuel ↦ by
      obtain ⟨fuel, rfl⟩ := Nat.exists_eq_succ_of_ne_zero (Nat.ne_zero_of_lt hfuel)
      rcases (G.node g).eq_group_or with ⟨kind, children, hg⟩ | ⟨-, hnil⟩
      · rw [hg] at hc
        have hdepth := SceneGraph.depth_child_lt hg hc
        refine ⟨_, (mem_visits_group hg).2 ⟨i, c, hc, ?_⟩, rfl⟩
        rw [visits_of_resolvesTo hshape (by omega)]
        exact List.mem_singleton_self _
      · rw [hnil] at hc
        cases hc
  exact hv

end Order

/-! ### Going through the visits -/

section Visited

variable [DecidableEq N] {conv : List N → N → Bool} {G : SceneGraph N K} {V V₁ V₂ : List (Visit N)}
  {s t : Shaping N K} {v : Visit N} {g : N} {i : ℕ}

/-- The state after some of the visits `V`: of the groups, only those have changed whose last child
fails. -/
structure Visited (conv : List N → N → Bool) (G : SceneGraph N K) (V V₁ : List (Visit N))
    (s : Shaping N K) : Prop where
  converted : s.converted = firstShapes V₁
  kept : ∀ g, (∀ v ∈ V₁, Fails conv (firstShapes V) v.shape → ∀ i, v.place ≠ some (g, i)) →
    s.node g = G.node g
  removed : ∀ v ∈ V₁, Fails conv (firstShapes V) v.shape → ∀ g i, v.place = some (g, i) →
    i + 1 = (G.node g).children.length ∧ (G.node g).removeChild i = some (s.node g)

theorem visited_start (m : List String) : Visited conv G V [] ⟨G.node, [], m⟩ where
  converted := rfl
  kept _ _ := rfl
  removed _ h := absurd h List.not_mem_nil

/-- At its first visit, a Shape fails if its conversion does. -/
theorem fails_iff (hV : V = V₁ ++ v :: V₂) (hnew : v.shape ∉ V₁.map Visit.shape) :
    Fails conv (firstShapes V) v.shape ↔ conv (firstShapes V₁) v.shape = false := by
  rw [Fails, firstShapes, hV, List.map_append, List.map_cons, takeWhile_distinct_eq hnew,
    firstShapes]

/-- The children of a group are the original ones, or the last one has been removed. -/
theorem Visited.countChildren_cases (h : Visited conv G V V₁ s) (g : N) :
    (∀ v ∈ V₁, Fails conv (firstShapes V) v.shape → ∀ i, v.place ≠ some (g, i)) ∧
        s.node g = G.node g ∨
      ∃ v ∈ V₁, ∃ i, Fails conv (firstShapes V) v.shape ∧ v.place = some (g, i) ∧
        i + 1 = (G.node g).children.length ∧ s.countChildren g = i := by
  rcases Classical.em
    (∃ v ∈ V₁, ∃ i, Fails conv (firstShapes V) v.shape ∧ v.place = some (g, i)) with
    ⟨v, hv, i, hfails, hplace⟩ | hnone
  · obtain ⟨hlast, hremove⟩ := h.removed v hv hfails g i hplace
    obtain ⟨hi, kind, hnode⟩ := SceneNode.removeChild_eq_some hremove
    refine .inr ⟨v, hv, i, hfails, hplace, hlast, ?_⟩
    rw [Shaping.countChildren, hnode, SceneNode.children, List.length_eraseIdx_of_lt hi]
    omega
  · have hkeep : ∀ v ∈ V₁, Fails conv (firstShapes V) v.shape → ∀ i, v.place ≠ some (g, i) :=
      fun v hv hfails i hplace ↦ hnone ⟨v, hv, i, hfails, hplace⟩
    exact .inl ⟨hkeep, h.kept g hkeep⟩

theorem firstShapes_concat_of_mem (h : v.shape ∈ V₁.map Visit.shape) :
    firstShapes (V₁ ++ [v]) = firstShapes V₁ := by
  rw [firstShapes, List.map_append, List.map_singleton, distinct_eq_concat_of_mem h, firstShapes]

theorem firstShapes_concat_of_notMem (h : v.shape ∉ V₁.map Visit.shape) :
    firstShapes (V₁ ++ [v]) = firstShapes V₁ ++ [v.shape] := by
  rw [firstShapes, List.map_append, List.map_singleton, distinct_eq_concat_of_notMem h, firstShapes]

/-- A Shape that has been removed is met at its place again. -/
theorem Visited.skip (h : Visited conv G V V₁ s) {w : Visit N} (hw : w ∈ V₁)
    (hshape : w.shape = v.shape) (hplace : w.place = v.place) : Visited conv G V (V₁ ++ [v]) s where
  converted := by
    rw [firstShapes_concat_of_mem (List.mem_map.2 ⟨w, hw, hshape⟩)]
    exact h.converted
  kept g hg := h.kept g fun u hu ↦ hg u (List.mem_append_left _ hu)
  removed u hu hfails g i hu' := by
    rcases List.mem_append.1 hu with hu | hu
    · exact h.removed u hu hfails g i hu'
    · rw [List.mem_singleton.1 hu] at hfails hu'
      exact h.removed w hw (hshape.symm ▸ hfails) g i (hplace.trans hu')

/-- A Shape is converted that does not fail, or is at no place. -/
theorem Visited.convert (h : Visited conv G V V₁ s) (hnew : v.shape ∉ V₁.map Visit.shape)
    (hok : ∀ g i, v.place = some (g, i) → ¬Fails conv (firstShapes V) v.shape) :
    Visited conv G V (V₁ ++ [v]) (s.convert v.shape) where
  converted := by
    rw [firstShapes_concat_of_notMem hnew, ← h.converted]
    rfl
  kept g hg := h.kept g fun u hu ↦ hg u (List.mem_append_left _ hu)
  removed u hu hfails g i hu' := by
    rcases List.mem_append.1 hu with hu | hu
    · exact h.removed u hu hfails g i hu'
    · rw [List.mem_singleton.1 hu] at hfails hu'
      exact absurd hfails (hok g i hu')

/-- A Shape that fails is removed from a group that has not changed. -/
theorem Visited.remove (h : Visited conv G V V₁ s) (hnew : v.shape ∉ V₁.map Visit.shape)
    (hplace : v.place = some (g, i)) (hfails : Fails conv (firstShapes V) v.shape)
    (hsame : ∀ w ∈ V₁, Fails conv (firstShapes V) w.shape → ∀ i, w.place ≠ some (g, i))
    (hlast : i + 1 = (G.node g).children.length)
    (ht : (s.convert v.shape).removeChild g i = some t) : Visited conv G V (V₁ ++ [v]) t := by
  obtain ⟨node, hnode, rfl⟩ := Option.map_eq_some_iff.1 ht
  refine ⟨?_, fun g' hg' ↦ ?_, fun u hu hfails' g' i' hu' ↦ ?_⟩
  · rw [firstShapes_concat_of_notMem hnew, ← h.converted]
    rfl
  · rcases eq_or_ne g' g with rfl | hne
    · exact absurd hplace (hg' v (List.mem_append_right _ (List.mem_singleton_self v)) hfails i)
    · exact (Function.update_of_ne hne _ _).trans
        (h.kept g' fun u hu ↦ hg' u (List.mem_append_left _ hu))
  · rcases List.mem_append.1 hu with hu | hu
    · obtain ⟨hlast', hremove⟩ := h.removed u hu hfails' g' i' hu'
      have hne : g' ≠ g := fun heq ↦ hsame u hu hfails' i' (heq ▸ hu')
      exact ⟨hlast', hremove.trans (congrArg some (Function.update_of_ne hne _ _).symm)⟩
    · rw [List.mem_singleton.1 hu] at hu'
      obtain ⟨rfl, rfl⟩ := Prod.mk.inj (Option.some.inj (hplace.symm.trans hu'))
      refine ⟨hlast, ?_⟩
      rw [show (s.convert v.shape).node = s.node from rfl, h.kept g hsame] at hnode
      have hupdate : (Function.update (s.convert v.shape).node g node) g = node :=
        Function.update_self ..
      exact hnode.trans (congrArg some hupdate.symm)

theorem IsPlaced.concat {l : List N} (h : IsPlaced conv G l V₁)
    (hlast : Fails conv l v.shape → ∀ g i, v.place = some (g, i) →
      i + 1 = (G.node g).children.length ∧ ((G.node g).removeChild i).isSome)
    (honce : ∀ w ∈ V₁, w.shape = v.shape →
      Fails conv l w.shape ∧ ∃ g i, w.place = some (g, i) ∧ v.place = some (g, i)) :
    IsPlaced conv G l (V₁ ++ [v]) where
  last u hu := by
    rcases List.mem_append.1 hu with hu | hu
    · exact h.last u hu
    · exact List.mem_singleton.1 hu ▸ hlast
  once := by
    refine List.pairwise_append.2 ⟨h.once, List.pairwise_singleton _ v, fun w hw u hu ↦ ?_⟩
    exact List.mem_singleton.1 hu ▸ honce w hw

theorem IsPlaced.of_concat {l : List N} (h : IsPlaced conv G l (V₁ ++ [v])) :
    IsPlaced conv G l V₁ ∧
    (Fails conv l v.shape → ∀ g i, v.place = some (g, i) →
      i + 1 = (G.node g).children.length ∧ ((G.node g).removeChild i).isSome) ∧
    ∀ w ∈ V₁, w.shape = v.shape →
      Fails conv l w.shape ∧ ∃ g i, w.place = some (g, i) ∧ v.place = some (g, i) := by
  obtain ⟨honce, -, hv⟩ := List.pairwise_append.1 h.once
  exact ⟨⟨fun u hu ↦ h.last u (List.mem_append_left _ hu), honce⟩,
    h.last v (List.mem_append_right _ (List.mem_singleton_self v)),
    fun w hw ↦ hv w hw v (List.mem_singleton_self v)⟩

/-- Two visits of one Shape are at one place, and it fails. -/
theorem IsPlaced.of_mem {l : List N} (h : IsPlaced conv G l V₁) {u w : Visit N} (hu : u ∈ V₁)
    (hw : w ∈ V₁) (hshape : u.shape = w.shape) (hfails : Fails conv l w.shape)
    (hplace : w.place = some (g, i)) : u.place = some (g, i) := by
  rcases eq_or_ne u w with rfl | hne
  · exact hplace
  · have hR : Std.Symm fun v w : Visit N ↦ v.shape = w.shape →
        Fails conv l v.shape ∧ ∃ g i, v.place = some (g, i) ∧ w.place = some (g, i) :=
      ⟨fun v w h heq ↦ by
        obtain ⟨hf, g, i, hv, hw⟩ := h heq.symm
        exact ⟨heq ▸ hf, g, i, hw, hv⟩⟩
    obtain ⟨-, g', i', hu', hw'⟩ := h.once.forall hu hw hne hshape
    rw [hu', ← hw', hplace]

/-- If each Shape has been converted once, it is placed rightly. -/
theorem visited_of_foldlM (hvalid : ∀ v ∈ V, v.IsValid G)
    (hsibling : ∀ P, P <+: V → ∀ w ∈ P, ∀ g j, w.place = some (g, j) → ∀ v ∈ V, ∀ i < j,
      v.place = some (g, i) → v ∈ P)
    (hpre : V₁ <+: V) (hs : V₁.foldlM (visit conv) ⟨G.node, [], []⟩ = some s)
    (hnodup : s.converted.Nodup) :
    Visited conv G V V₁ s ∧ IsPlaced conv G (firstShapes V) V₁ := by
  induction V₁ using List.reverseRecOn generalizing s with
  | nil =>
    obtain rfl := Option.some.inj hs
    exact ⟨visited_start [], fun v hv ↦ absurd hv List.not_mem_nil, List.Pairwise.nil⟩
  | append_singleton V₁ v ih =>
    rw [List.foldlM_append] at hs
    obtain ⟨s₁, hs₁, hs⟩ := Option.bind_eq_some_iff.1 hs
    rw [List.foldlM_cons] at hs
    obtain ⟨s₂, hs₂, hs⟩ := Option.bind_eq_some_iff.1 hs
    obtain rfl := Option.some.inj hs
    obtain ⟨V₂, hV⟩ := hpre
    rw [List.append_assoc, List.singleton_append] at hV
    have hpre₁ : V₁ <+: V := ⟨v :: V₂, hV⟩
    have hvV : v ∈ V := hV ▸ List.mem_append_right V₁ List.mem_cons_self
    have hstep := visit_cases hs₂
    have hconverted : s₂.converted = s₁.converted ∨ s₂.converted = s₁.converted ++ [v.shape] := by
      rcases hstep with ⟨g, i, -, -, rfl⟩ | ⟨rfl, -⟩ | ⟨g, i, -, -, -, hremove⟩
      · exact .inl rfl
      · exact .inr rfl
      · exact .inr (Shaping.removeChild_eq_some hremove).2.1
    have hnodup₁ : s₁.converted.Nodup := by
      rcases hconverted with heq | heq
      · rwa [heq] at hnodup
      · rw [heq] at hnodup
        exact hnodup.sublist (List.sublist_append_left _ _)
    obtain ⟨hvisited, hplaced⟩ := ih hpre₁ hs₁ hnodup₁
    have hnew (heq : s₂.converted = s₁.converted ++ [v.shape]) : v.shape ∉ V₁.map Visit.shape := by
      rw [heq, hvisited.converted, List.nodup_append] at hnodup
      exact fun hmem ↦ hnodup.2.2 _ (mem_distinct_eq.2 hmem) _ (List.mem_singleton_self _) rfl
    rcases hstep with ⟨g, i, hplace, hle, rfl⟩ | ⟨rfl, hok⟩ | ⟨g, i, hplace, hi, hconv, hremove⟩
    · -- the child has been removed by an earlier visit of the same place
      have hlt := (hvalid v hvV).lt_length hplace
      rcases hvisited.countChildren_cases g with ⟨-, hsame⟩ | ⟨w, hw, j, hfails, hw', hj, hcount⟩
      · rw [Shaping.countChildren, hsame] at hle
        omega
      · obtain rfl : i = j := by omega
        have hshape := (hvalid w (hpre₁.subset hw)).shape_eq (hvalid v hvV) hw' hplace
        refine ⟨hvisited.skip hw hshape (hw'.trans hplace.symm),
          hplaced.concat ?_ fun u hu huv ↦ ?_⟩
        · intro _ g' i' hplace'
          obtain ⟨rfl, rfl⟩ := Prod.mk.inj (Option.some.inj (hplace.symm.trans hplace'))
          exact hplaced.last w hw hfails g i hw'
        · have huw := huv.trans hshape.symm
          exact ⟨huw ▸ hfails, g, i, hplaced.of_mem hu hw huw hfails hw', hplace⟩
    · have hnew := hnew rfl
      refine ⟨hvisited.convert hnew fun g i hplace hfails ↦ ?_, hplaced.concat (fun hfails g i
        hplace ↦ ?_) fun w hw heq ↦ absurd (List.mem_map.2 ⟨w, hw, heq⟩) hnew⟩
      · rw [fails_iff hV.symm hnew, ← hvisited.converted, (hok g i hplace).2] at hfails
        cases hfails
      · rw [fails_iff hV.symm hnew, ← hvisited.converted, (hok g i hplace).2] at hfails
        cases hfails
    · have hnew := hnew (Shaping.removeChild_eq_some hremove).2.1
      have hfails : Fails conv (firstShapes V) v.shape := by
        rw [fails_iff hV.symm hnew, ← hvisited.converted]
        exact hconv
      rcases hvisited.countChildren_cases g with ⟨hsame, hnode⟩ | ⟨w, hw, j, -, hw', hj, hcount⟩
      · have hlast : i + 1 = (G.node g).children.length := by
          rw [hi, Shaping.countChildren, hnode]
        refine ⟨hvisited.remove hnew hplace hfails hsame hlast hremove, hplaced.concat (fun _ g' i'
          hplace' ↦ ?_) fun w hw heq ↦ absurd (List.mem_map.2 ⟨w, hw, heq⟩) hnew⟩
        obtain ⟨rfl, rfl⟩ := Prod.mk.inj (Option.some.inj (hplace.symm.trans hplace'))
        obtain ⟨node, hremove', -⟩ := Option.map_eq_some_iff.1 hremove
        rw [show (s₁.convert v.shape).node = s₁.node from rfl, hnode] at hremove'
        exact ⟨hlast, Option.isSome_iff_exists.2 ⟨node, hremove'⟩⟩
      · -- the last child has been met, so this one has been met before
        have hmem := hsibling V₁ hpre₁ w hw g j hw' v hvV i (by omega) hplace
        exact absurd (List.mem_map.2 ⟨v, hmem, rfl⟩) hnew

/-- If the Shapes are placed rightly, the visits can be gone through. -/
theorem IsPlaced.exists_foldlM (hvalid : ∀ v ∈ V, v.IsValid G) (hpre : V₁ <+: V)
    (h : IsPlaced conv G (firstShapes V) V₁) :
    ∃ s, V₁.foldlM (visit conv) ⟨G.node, [], []⟩ = some s ∧ Visited conv G V V₁ s := by
  induction V₁ using List.reverseRecOn with
  | nil => exact ⟨_, rfl, visited_start []⟩
  | append_singleton V₁ v ih =>
    obtain ⟨V₂, hV⟩ := hpre
    rw [List.append_assoc, List.singleton_append] at hV
    have hpre₁ : V₁ <+: V := ⟨v :: V₂, hV⟩
    have hvV : v ∈ V := hV ▸ List.mem_append_right V₁ List.mem_cons_self
    obtain ⟨hplaced, hlast, honce⟩ := h.of_concat
    obtain ⟨s, hs, hvisited⟩ := ih hpre₁ hplaced
    suffices hstep : ∃ t, visit conv s v = some t ∧ Visited conv G V (V₁ ++ [v]) t by
      obtain ⟨t, ht, ht'⟩ := hstep
      refine ⟨t, ?_, ht'⟩
      rw [List.foldlM_append, hs]
      exact congrArg (Option.bind · some) ht
    rcases Decidable.em (v.shape ∈ V₁.map Visit.shape) with hold | hnew
    · obtain ⟨w, hw, hshape⟩ := List.mem_map.1 hold
      obtain ⟨hfails, g, i, hw', hplace⟩ := honce w hw hshape
      refine ⟨s, ?_, hvisited.skip hw hshape (hw'.trans hplace.symm)⟩
      obtain ⟨hi, hremove⟩ := hvisited.removed w hw hfails g i hw'
      obtain ⟨hlt, kind, hnode⟩ := SceneNode.removeChild_eq_some hremove
      have hcount : ¬i < s.countChildren g := by
        rw [Shaping.countChildren, hnode, SceneNode.children, List.length_eraseIdx_of_lt hlt]
        omega
      rw [visit, hplace]
      exact if_neg hcount
    · have hfails : Fails conv (firstShapes V) v.shape ↔ conv (firstShapes V₁) v.shape = false :=
        fails_iff hV.symm hnew
      rw [← hvisited.converted] at hfails
      rcases hplace : v.place with - | ⟨g, i⟩
      · refine ⟨s.convert v.shape, ?_, hvisited.convert hnew fun g i h ↦ ?_⟩
        · rw [visit, hplace]
        · rw [hplace] at h
          cases h
      · have hlt := (hvalid v hvV).lt_length hplace
        have hpresent : i < s.countChildren g := by
          rcases hvisited.countChildren_cases g with ⟨-, hsame⟩ | ⟨w, hw, j, -, hw', hj, hcount⟩
          · rw [Shaping.countChildren, hsame]
            exact hlt
          · rcases Nat.lt_or_ge i j with hlt' | hge
            · omega
            · obtain rfl : i = j := by omega
              exact absurd (List.mem_map.2 ⟨w, hw, (hvalid w (hpre₁.subset hw)).shape_eq
                (hvalid v hvV) hw' hplace⟩) hnew
        rcases hconv : conv s.converted v.shape with - | -
        · obtain ⟨hi, hsome⟩ := hlast (hfails.2 hconv) g i hplace
          rcases hvisited.countChildren_cases g with ⟨hsame, hnode⟩ | ⟨w, hw, j, -, hw', hj, hcount⟩
          · obtain ⟨node, hremove⟩ := Option.isSome_iff_exists.1 hsome
            have ht : ∃ t, (s.convert v.shape).removeChild g i = some t := by
              refine ⟨_, Option.map_eq_some_iff.2 ⟨node, ?_, rfl⟩⟩
              rw [show (s.convert v.shape).node = s.node from rfl, hnode]
              exact hremove
            obtain ⟨t, ht⟩ := ht
            refine ⟨t, ?_, hvisited.remove hnew hplace (hfails.2 hconv) hsame hi ht⟩
            have hcount : i + 1 = s.countChildren g := by
              rw [Shaping.countChildren, hnode]
              exact hi
            rw [visit, hplace]
            dsimp only
            rw [if_pos hpresent, hconv, if_neg Bool.false_ne_true, if_pos hcount]
            exact ht
          · omega
        · refine ⟨s.convert v.shape, ?_, hvisited.convert hnew fun g i _ h ↦ ?_⟩
          · rw [visit, hplace]
            dsimp only
            rw [if_pos hpresent, hconv, if_pos rfl]
          · rw [hfails, hconv] at h
            cases h

end Visited

/-! ### Shaping a scene graph -/

section Shaped

variable [DecidableEq N] {conv : List N → N → Bool} {G : SceneGraph N K} {top : N}
  {s : Shaping N K}

omit [DecidableEq N] in
theorem SceneGraph.isValid_of_mem_visits {v : Visit N} (h : v ∈ G.visits top) : v.IsValid G :=
  TriangleMeshShaper.isValid_of_mem_visits h fun _ _ _ _ heq ↦ by cases heq

/-- The traversal has a result if the visits can be gone through. -/
theorem shapeSceneGraph_iff :
    (∃ b, shapeSceneGraph conv G top = some (b, s)) ↔
      (G.visits top).foldlM (visit conv) ⟨G.node, [], []⟩ = some s := by
  have hgo : GoesThrough conv G (G.depth top + 1) ⟨G.node, [], []⟩ top none :=
    traverseShapeNodes_visits (truncated_start G [] []) (Nat.lt_succ_self _)
      (fun _ _ _ _ heq ↦ by cases heq) fun _ _ heq ↦ by cases heq
  rw [GoesThrough] at hgo
  rcases hfold : (G.visits top).foldlM (visit conv) ⟨G.node, [], []⟩ with - | t <;>
    rw [SceneGraph.visits] at hfold <;> rw [hfold] at hgo
  · refine iff_of_false ?_ fun h ↦ by cases h
    rintro ⟨b, hb⟩
    obtain ⟨g, i, heq, -⟩ := hgo (b, s) hb
    cases heq
  · obtain ⟨b, hb⟩ := hgo
    constructor
    · rintro ⟨b', hb'⟩
      exact congrArg some (Prod.mk.inj (Option.some.inj (hb.symm.trans hb'))).2
    · intro h
      obtain rfl := Option.some.inj h
      exact ⟨b, hb⟩

omit [DecidableEq N] in
theorem SceneGraph.sibling_mem {P : List (Visit N)} (hP : P <+: G.visits top) {v w : Visit N}
    (hw : w ∈ P) {g : N} {i j : ℕ} (hplace : w.place = some (g, j)) (hv : v ∈ G.visits top)
    (hij : i < j) (hvplace : v.place = some (g, i)) : v ∈ P := by
  obtain ⟨c, hc, hshape⟩ := SceneGraph.isValid_of_mem_visits hv g i hvplace
  have hdepth : G.depth g ≤ G.depth top := by
    rcases place_of_mem_visits hv with ⟨heq, -⟩ | ⟨g', i', d, heq, hle, -⟩
    · rw [hvplace] at heq
      cases heq
    · obtain ⟨rfl, rfl⟩ := Prod.mk.inj (Option.some.inj (hvplace.symm.trans heq))
      exact hle
  have hmem := TriangleMeshShaper.sibling_mem hP hw hplace hdepth (fun _ _ heq ↦ by cases heq)
    (Nat.lt_succ_self _) hij hc hshape
  obtain ⟨shape, place⟩ := v
  obtain rfl : place = some (g, i) := hvplace
  exact hmem

theorem mem_firstShapes_visits {shape : N} :
    shape ∈ firstShapes (G.visits top) ↔ Reaches G.node top shape ∧ G.node shape = .shape := by
  rw [firstShapes, mem_distinct_eq]
  constructor
  · intro h
    obtain ⟨v, hv, rfl⟩ := List.mem_map.1 h
    exact reaches_of_mem_visits hv
  · rintro ⟨hreach, hshape⟩
    obtain ⟨v, hv, rfl⟩ := exists_mem_visits_of_reaches hreach (Nat.lt_succ_self _) none
      (Q := fun v ↦ v.shape = shape) fun fuel place hfuel ↦
        ⟨⟨shape, place⟩, by
          rw [visits_of_resolvesTo (.shape hshape) hfuel]
          exact List.mem_singleton_self _, rfl⟩
    exact List.mem_map.2 ⟨v, hv, rfl⟩

open Classical in
/-- The children that are left after all visits. -/
theorem Visited.children_eq (h : Visited conv G (G.visits top) (G.visits top) s)
    (hplaced : IsPlaced conv G (firstShapes (G.visits top)) (G.visits top)) {g : N}
    (hg : Reaches G.node top g) :
    (s.node g).children = (G.node g).children.filter fun c ↦
      ¬∃ shape, ResolvesTo G.node c shape ∧ Fails conv s.converted shape := by
  have hmet {i : ℕ} {c shape : N} (hc : (G.node g).children[i]? = some c)
      (hshape : ResolvesTo G.node c shape) : ⟨shape, some (g, i)⟩ ∈ G.visits top :=
    mem_visits_of_child hg (Nat.lt_succ_self _) hc hshape
  rcases h.countChildren_cases g with ⟨hsame, hnode⟩ | ⟨v, hv, i, hfails, hplace, hi, -⟩
  · rw [hnode]
    refine (List.filter_eq_self.2 fun c hc ↦ decide_eq_true ?_).symm
    rintro ⟨shape, hshape, hfails⟩
    obtain ⟨i, hi⟩ := List.mem_iff_getElem?.1 hc
    rw [h.converted] at hfails
    exact hsame _ (hmet hi hshape) hfails i rfl
  · obtain ⟨-, hremove⟩ := h.removed v hv hfails g i hplace
    obtain ⟨hlt, kind, hnode⟩ := SceneNode.removeChild_eq_some hremove
    obtain ⟨c, hc, hshape⟩ := SceneGraph.isValid_of_mem_visits hv g i hplace
    have hdrop : (G.node g).children.drop i = [c] := by
      rw [List.drop_eq_getElem_cons hlt, List.drop_eq_nil_of_le (by omega),
        (List.getElem?_eq_some_iff.1 hc).2]
    have hleft : (s.node g).children = (G.node g).children.take i := by
      rw [hnode, SceneNode.children, List.eraseIdx_eq_take_drop_succ,
        List.drop_eq_nil_of_le (by omega), List.append_nil]
    have hkeep : ∀ c ∈ (G.node g).children.take i,
        ¬∃ shape, ResolvesTo G.node c shape ∧ Fails conv s.converted shape := by
      rintro c hc ⟨shape, hshape, hfails'⟩
      obtain ⟨j, hj, rfl⟩ := List.mem_take_iff_getElem.1 hc
      rw [h.converted] at hfails'
      have hlast := (hplaced.last _ (hmet (List.getElem?_eq_getElem (by omega)) hshape) hfails'
        g j rfl).1
      omega
    have hdropped : ∃ shape, ResolvesTo G.node c shape ∧ Fails conv s.converted shape :=
      ⟨v.shape, hshape, h.converted ▸ hfails⟩
    have hsplit := List.take_append_drop i (G.node g).children
    rw [hdrop] at hsplit
    rw [hleft, ← hsplit, List.filter_append, List.filter_cons_of_neg (by simpa using hdropped),
      List.filter_nil, List.append_nil, hsplit,
      List.filter_eq_self.2 fun c hc ↦ decide_eq_true (hkeep c hc)]

/-- **Shaping a scene graph** visits each Shape once and removes exactly those that fail if and only
if the Shapes are placed rightly. -/
theorem isShaped_iff (conv : List N → N → Bool) (G : SceneGraph N K) (top : N) :
    (∃ b s, shapeSceneGraph conv G top = some (b, s) ∧ IsShaped conv G top s) ↔
      IsPlaced conv G (firstShapes (G.visits top)) (G.visits top) := by
  constructor
  · rintro ⟨b, s, hs, hshaped⟩
    exact (visited_of_foldlM (fun v hv ↦ SceneGraph.isValid_of_mem_visits hv)
      (fun P hP w hw g j hplace v hv i hij hvplace ↦
        SceneGraph.sibling_mem hP hw hplace hv hij hvplace)
      List.prefix_rfl (shapeSceneGraph_iff.1 ⟨b, hs⟩) hshaped.once).2
  · intro h
    obtain ⟨s, hs, hvisited⟩ := h.exists_foldlM
      (fun v hv ↦ SceneGraph.isValid_of_mem_visits hv) List.prefix_rfl
    obtain ⟨b, hb⟩ := shapeSceneGraph_iff.2 hs
    refine ⟨b, s, hb, ?_, fun shape ↦ ?_, fun g hg ↦ hvisited.children_eq h hg⟩
    · rw [hvisited.converted]
      exact nodup_distinct_eq _
    · rw [hvisited.converted]
      exact mem_firstShapes_visits

/-- A group with two Shapes. -/
def twoShapes : SceneGraph ℕ ℕ where
  node n := if n = 0 then .group .group [1, 2] else .shape
  depth n := if n = 0 then 1 else 0
  depth_lt n c hc := by
    rcases n with - | n
    · rcases List.mem_cons.1 hc with rfl | hc
      · decide
      · obtain rfl := List.mem_singleton.1 hc
        decide
    · exact absurd hc List.not_mem_nil

/-- If the first of two Shapes fails, the loop reads a child that does not exist. -/
theorem not_isShaped_twoShapes :
    shapeSceneGraph (fun _ n ↦ n ≠ 1) twoShapes 0 = none ∧
      ¬∃ b s, shapeSceneGraph (fun _ n ↦ n ≠ 1) twoShapes 0 = some (b, s) ∧
        IsShaped (fun _ n ↦ n ≠ 1) twoShapes 0 s := by
  have h : shapeSceneGraph (fun _ n ↦ n ≠ 1) twoShapes 0 = none := rfl
  refine ⟨h, ?_⟩
  rintro ⟨b, s, hs, -⟩
  rw [h] at hs
  cases hs

/-- If the second one fails, the first one is left. -/
example : (shapeSceneGraph (fun _ n ↦ n ≠ 2) twoShapes 0).map
    (fun r ↦ ((r.2.node 0).children, r.2.converted)) = some ([1], [1, 2]) :=
  rfl

end Shaped

end OpenHRP.TriangleMeshShaper
