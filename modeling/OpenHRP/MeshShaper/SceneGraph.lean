import OpenHRP.Foundations.Runs
import Mathlib.Data.Int.Notation
import Mathlib.Data.List.Induction

/-!
# Shaping a scene graph

`TriangleMeshShaper::apply` goes through a scene graph from its top node and converts each Shape.
The children of a group are read by index up to the number that is taken before the loop; a Shape
that cannot be converted is removed from the children at once.

Nodes have an identity, since `USE` puts one node at several places. The traversal is the same as
going through a list that the unchanged graph determines, the Shapes and the places at which they
are met (`traverseShapeNodes_visits`); it reads beyond the children of a group if a Shape that is
not the last child fails.
-/

namespace OpenHRP.TriangleMeshShaper

variable {N K : Type*}

/-! ### The nodes -/

/-- The kinds of groups. `VrmlTransform` and the other subclasses of `VrmlGroup` are plain groups.
-/
inductive GroupKind (K : Type*)
  | group
  | switch (whichChoice : ℤ)
  | lod (range : List K)
  deriving DecidableEq

/-- A node of a scene graph, with references to other nodes. -/
inductive SceneNode (N K : Type*)
  | shape
  | group (kind : GroupKind K) (children : List N)
  | protoInstance (actualNode : Option N)
  | other
  deriving DecidableEq

/-- `replaceChild(childIndex, 0)` of each kind of group. An LOD erases an element of `range` as
well; there is no result if one of the lists does not have the element. -/
def GroupKind.removeChild (kind : GroupKind K) (children : List N) (childIndex : ℕ) :
    Option (SceneNode N K) :=
  if childIndex < children.length then
    let children := children.eraseIdx childIndex
    match kind with
    | .group => some (.group .group children)
    | .switch whichChoice =>
      let whichChoice :=
        if whichChoice = childIndex then -1
        else if whichChoice > childIndex then whichChoice - 1
        else whichChoice
      some (.group (.switch whichChoice) children)
    | .lod range =>
      if children = [] then some (.group (.lod range) children)
      else
        let rangeIndexToRemove := if childIndex > 0 then childIndex - 1 else 0
        if rangeIndexToRemove < range.length then
          some (.group (.lod (range.eraseIdx rangeIndexToRemove)) children)
        else none
  else none

namespace SceneNode

/-- The children of a group. -/
def children : SceneNode N K → List N
  | .group _ children => children
  | _ => []

/-- The nodes to which a node refers. -/
def targets : SceneNode N K → List N
  | .group _ children => children
  | .protoInstance actualNode => actualNode.toList
  | _ => []

theorem eq_group_or (node : SceneNode N K) :
    (∃ kind children, node = .group kind children) ∨
      (∀ kind children, node ≠ .group kind children) ∧ node.children = [] := by
  cases node with
  | group kind children => exact .inl ⟨kind, children, rfl⟩
  | shape => exact .inr ⟨fun _ _ h ↦ (by cases h), rfl⟩
  | protoInstance _ => exact .inr ⟨fun _ _ h ↦ (by cases h), rfl⟩
  | other => exact .inr ⟨fun _ _ h ↦ (by cases h), rfl⟩

/-- `removeChild`. -/
def removeChild (node : SceneNode N K) (childIndex : ℕ) : Option (SceneNode N K) :=
  match node with
  | .group kind children => kind.removeChild children childIndex
  | _ => none

end SceneNode

/-- A scene graph. No node is below itself. -/
structure SceneGraph (N K : Type*) where
  node : N → SceneNode N K
  depth : N → ℕ
  depth_lt : ∀ n, ∀ c ∈ (node n).targets, depth c < depth n

/-! ### The traversal -/

/-- The state of the traversal: the nodes, the Shapes that have been converted and the messages. -/
structure Shaping (N K : Type*) where
  node : N → SceneNode N K
  converted : List N
  messages : List String

namespace Shaping

/-- A Shape is converted. -/
def convert (s : Shaping N K) (shape : N) : Shaping N K :=
  { s with converted := s.converted ++ [shape] }

/-- A child is removed from a group. -/
def removeChild [DecidableEq N] (s : Shaping N K) (parent : N) (i : ℕ) : Option (Shaping N K) :=
  ((s.node parent).removeChild i).map fun node ↦
    { s with
      node := Function.update s.node parent node
      messages := s.messages ++ ["Node is inconvertible and removed from the scene graph"] }

/-- `countChildren`. -/
def countChildren (s : Shaping N K) (n : N) : ℕ :=
  (s.node n).children.length

end Shaping

section Traverse

variable [DecidableEq N] (convertShapeNode : List N → N → Bool)

/-- `traverseShapeNodes`. What the conversion of a Shape returns may depend on the Shapes that have
been converted before. There is no result if a child is read that does not exist. -/
def traverseShapeNodes : ℕ → Shaping N K → N → Option (N × ℕ) → Option (Bool × Shaping N K)
  | 0, _, _, _ => none
  | fuel + 1, s, n, parent =>
    match s.node n with
    | .protoInstance none => some (true, s)
    | .protoInstance (some actualNode) =>
      (traverseShapeNodes fuel s actualNode parent).map fun r ↦ (true, r.2)
    | .group _ children =>
      ((List.range children.length).foldlM (fun s i ↦
        (s.node n).children[i]?.bind fun child ↦
          (traverseShapeNodes fuel s child (some (n, i))).map Prod.snd) s).map fun s ↦ (true, s)
    | .shape =>
      let result := convertShapeNode s.converted n
      if result then some (true, s.convert n)
      else
        match parent with
        | none => some (false, s.convert n)
        | some (group, i) => ((s.convert n).removeChild group i).map fun s ↦ (false, s)
    | .other => some (true, s)

/-- `apply`: whether the top node is returned, and what has become of the nodes. -/
def shapeSceneGraph (G : SceneGraph N K) (top : N) : Option (Bool × Shaping N K) :=
  traverseShapeNodes convertShapeNode (G.depth top + 1) ⟨G.node, [], []⟩ top none

end Traverse

/-! ### The Shapes and their places -/

/-- A Shape, and the group and index at which it is met. -/
structure Visit (N : Type*) where
  shape : N
  place : Option (N × ℕ)
  deriving DecidableEq

/-- The Shapes below a node in the order in which they are met. -/
def visits (node : N → SceneNode N K) : ℕ → N → Option (N × ℕ) → List (Visit N)
  | 0, _, _ => []
  | fuel + 1, n, place =>
    match node n with
    | .protoInstance none => []
    | .protoInstance (some actualNode) => visits node fuel actualNode place
    | .group _ children =>
      (List.range children.length).flatMap fun i ↦
        match children[i]? with
        | some child => visits node fuel child (some (n, i))
        | none => []
    | .shape => [⟨n, place⟩]
    | .other => []

/-- What a visit does: nothing if the child has been removed; and there is no way to go on if the
Shape fails and is not the last child. -/
def visit [DecidableEq N] (convertShapeNode : List N → N → Bool) (s : Shaping N K) (v : Visit N) :
    Option (Shaping N K) :=
  match v.place with
  | none => some (s.convert v.shape)
  | some (group, i) =>
    if i < s.countChildren group then
      if convertShapeNode s.converted v.shape then some (s.convert v.shape)
      else if i + 1 = s.countChildren group then (s.convert v.shape).removeChild group i
      else none
    else some s

/-! ### What a step can do -/

section Steps

variable {node : SceneNode N K} {i : ℕ}

theorem GroupKind.removeChild_eq_some {kind : GroupKind K} {children : List N}
    {node : SceneNode N K} (h : kind.removeChild children i = some node) :
    i < children.length ∧ ∃ kind', node = .group kind' (children.eraseIdx i) := by
  rw [GroupKind.removeChild] at h
  obtain hi | hi := Nat.lt_or_ge i children.length
  swap
  · rw [if_neg (Nat.not_lt.2 hi)] at h
    cases h
  rw [if_pos hi] at h
  refine ⟨hi, ?_⟩
  cases kind with
  | group => exact ⟨_, (Option.some.inj h).symm⟩
  | switch whichChoice => exact ⟨_, (Option.some.inj h).symm⟩
  | lod range =>
    dsimp only at h
    split_ifs at h <;> exact ⟨_, (Option.some.inj h).symm⟩

theorem SceneNode.removeChild_eq_some {node' : SceneNode N K}
    (h : node.removeChild i = some node') :
    i < node.children.length ∧ ∃ kind, node' = .group kind (node.children.eraseIdx i) := by
  cases node with
  | group kind children => exact kind.removeChild_eq_some h
  | shape => cases h
  | protoInstance actualNode => cases h
  | other => cases h

variable [DecidableEq N] {s t : Shaping N K} {g n : N}

theorem Shaping.removeChild_eq_some (h : s.removeChild g i = some t) :
    i < s.countChildren g ∧ t.converted = s.converted ∧
      (∃ kind, t.node g = .group kind ((s.node g).children.eraseIdx i)) ∧
      ∀ n, n ≠ g → t.node n = s.node n := by
  obtain ⟨node, hnode, rfl⟩ := Option.map_eq_some_iff.1 h
  obtain ⟨hi, kind, rfl⟩ := SceneNode.removeChild_eq_some hnode
  exact ⟨hi, rfl, ⟨kind, Function.update_self ..⟩, fun n hn ↦ Function.update_of_ne hn _ _⟩

theorem countChildren_removeChild (h : s.removeChild g i = some t) :
    t.countChildren g + 1 = s.countChildren g := by
  obtain ⟨hi, -, ⟨kind, hkind⟩, -⟩ := Shaping.removeChild_eq_some h
  rw [Shaping.countChildren] at hi
  rw [Shaping.countChildren, Shaping.countChildren, hkind, SceneNode.children,
    List.length_eraseIdx_of_lt hi]
  omega

theorem countChildren_removeChild_le (h : s.removeChild g i = some t) (n : N) :
    t.countChildren n ≤ s.countChildren n := by
  rcases eq_or_ne n g with rfl | hne
  · have hcount := countChildren_removeChild h
    omega
  · obtain ⟨-, -, -, hother⟩ := Shaping.removeChild_eq_some h
    rw [Shaping.countChildren, hother n hne]
    exact Nat.le_refl _

variable {conv : List N → N → Bool}

theorem countChildren_traverseShapeNodes_le {fuel : ℕ} {parent : Option (N × ℕ)}
    {r : Bool × Shaping N K} (h : traverseShapeNodes conv fuel s n parent = some r) (g : N) :
    r.2.countChildren g ≤ s.countChildren g := by
  induction fuel generalizing s n parent r with
  | zero => cases h
  | succ fuel ih =>
    rw [traverseShapeNodes.eq_def] at h
    dsimp only at h
    rcases hn : s.node n with - | ⟨kind, children⟩ | (- | actualNode) | - <;> rw [hn] at h <;>
      dsimp only at h
    · split_ifs at h
      · exact Option.some.inj h ▸ Nat.le_refl _
      · cases parent with
        | none => exact Option.some.inj h ▸ Nat.le_refl _
        | some place =>
          obtain ⟨t, ht, rfl⟩ := Option.map_eq_some_iff.1 h
          exact countChildren_removeChild_le ht g
    · obtain ⟨t, ht, rfl⟩ := Option.map_eq_some_iff.1 h
      refine foldlM_invariant (I := fun t ↦ t.countChildren g ≤ s.countChildren g) (Nat.le_refl _)
        (fun s i hi t hs hstep ↦ ?_) ht
      obtain ⟨child, -, hchild⟩ := Option.bind_eq_some_iff.1 hstep
      obtain ⟨r, hr, rfl⟩ := Option.map_eq_some_iff.1 hchild
      exact Nat.le_trans (ih hr) hs
    · exact Option.some.inj h ▸ Nat.le_refl _
    · obtain ⟨r, hr, rfl⟩ := Option.map_eq_some_iff.1 h
      have hle := ih hr
      exact hle
    · exact Option.some.inj h ▸ Nat.le_refl _

theorem visit_cases {v : Visit N} (h : visit conv s v = some t) :
    (∃ g i, v.place = some (g, i) ∧ s.countChildren g ≤ i ∧ t = s) ∨
    (t = s.convert v.shape ∧ ∀ g i, v.place = some (g, i) →
      i < s.countChildren g ∧ conv s.converted v.shape = true) ∨
    ∃ g i, v.place = some (g, i) ∧ i + 1 = s.countChildren g ∧
      conv s.converted v.shape = false ∧ (s.convert v.shape).removeChild g i = some t := by
  obtain ⟨shape, place⟩ := v
  rw [visit] at h
  rcases place with - | ⟨g, i⟩ <;> dsimp only at h ⊢
  · exact .inr (.inl ⟨(Option.some.inj h).symm, fun g i hplace ↦ by cases hplace⟩)
  · split_ifs at h with hi hconv hlast
    · refine .inr (.inl ⟨(Option.some.inj h).symm, fun g' i' hplace ↦ ?_⟩)
      obtain ⟨rfl, rfl⟩ := Prod.mk.inj (Option.some.inj hplace)
      exact ⟨hi, hconv⟩
    · exact .inr (.inr ⟨g, i, rfl, hlast, Bool.eq_false_iff.2 hconv, h⟩)
    · exact .inl ⟨g, i, rfl, Nat.le_of_not_lt hi, (Option.some.inj h).symm⟩

end Steps

/-! ### The visits of a graph -/

section Visits

/-- Instances of PROTOs lead to a Shape. -/
inductive ResolvesTo (node : N → SceneNode N K) : N → N → Prop
  | shape {n : N} : node n = .shape → ResolvesTo node n n
  | proto {n actualNode shape : N} : node n = .protoInstance (some actualNode) →
      ResolvesTo node actualNode shape → ResolvesTo node n shape

variable {G : SceneGraph N K} {fuel : ℕ} {n g shape : N} {place : Option (N × ℕ)} {i : ℕ}

/-- The child at the place of a visit leads to its Shape. -/
def Visit.IsValid (G : SceneGraph N K) (v : Visit N) : Prop :=
  ∀ g i, v.place = some (g, i) →
    ∃ c, (G.node g).children[i]? = some c ∧ ResolvesTo G.node c v.shape

theorem SceneGraph.depth_actualNode_lt {actualNode : N}
    (h : G.node n = .protoInstance (some actualNode)) : G.depth actualNode < G.depth n :=
  G.depth_lt n actualNode (h ▸ List.mem_singleton_self actualNode)

variable {kind : GroupKind K} {children : List N}

theorem SceneGraph.depth_child_lt {c : N} (h : G.node n = .group kind children)
    (hc : children[i]? = some c) : G.depth c < G.depth n :=
  G.depth_lt n c (h ▸ List.mem_of_getElem? hc)

theorem visits_shape (hn : G.node n = .shape) :
    visits G.node (fuel + 1) n place = [⟨n, place⟩] := by
  rw [visits.eq_def]
  dsimp only
  rw [hn]

theorem visits_protoInstance {actualNode : Option N} (hn : G.node n = .protoInstance actualNode) :
    visits G.node (fuel + 1) n place =
      actualNode.elim [] fun actualNode ↦ visits G.node fuel actualNode place := by
  rw [visits.eq_def]
  dsimp only
  rw [hn]
  cases actualNode <;> rfl

theorem visits_other (hn : G.node n = .other) : visits G.node (fuel + 1) n place = [] := by
  rw [visits.eq_def]
  dsimp only
  rw [hn]

theorem visits_group (hn : G.node n = .group kind children) :
    visits G.node (fuel + 1) n place = (List.range children.length).flatMap fun i ↦
      children[i]?.elim [] fun child ↦ visits G.node fuel child (some (n, i)) := by
  rw [visits.eq_def]
  dsimp only
  rw [hn]
  refine List.flatMap_congr fun i _ ↦ ?_
  cases children[i]? <;> rfl

theorem visits_of_resolvesTo (h : ResolvesTo G.node n shape) (hfuel : G.depth n < fuel) :
    visits G.node fuel n place = [⟨shape, place⟩] := by
  induction h generalizing fuel with
  | @shape n hn =>
    obtain ⟨fuel, rfl⟩ := Nat.exists_eq_succ_of_ne_zero (Nat.ne_zero_of_lt hfuel)
    exact visits_shape hn
  | @proto n actualNode shape hn _ ih =>
    obtain ⟨fuel, rfl⟩ := Nat.exists_eq_succ_of_ne_zero (Nat.ne_zero_of_lt hfuel)
    rw [visits_protoInstance hn]
    exact ih (Nat.lt_of_lt_of_le (SceneGraph.depth_actualNode_lt hn) (Nat.le_of_lt_succ hfuel))

variable {v : Visit N}

/-- The visits below a group are those below its children. -/
theorem mem_visits_group (hn : G.node n = .group kind children) :
    v ∈ visits G.node (fuel + 1) n place ↔
      ∃ i c, children[i]? = some c ∧ v ∈ visits G.node fuel c (some (n, i)) := by
  rw [visits_group hn]
  constructor
  · intro h
    obtain ⟨i, -, hv⟩ := List.mem_flatMap.1 h
    rcases hc : children[i]? with - | c <;> rw [hc] at hv
    · exact absurd hv List.not_mem_nil
    · exact ⟨i, c, hc, hv⟩
  · rintro ⟨i, c, hc, hv⟩
    refine List.mem_flatMap.2 ⟨i, List.mem_range.2 (List.getElem?_eq_some_iff.1 hc).1, ?_⟩
    rw [hc]
    exact hv

/-- A visit is at the given place, where the node leads to the Shape, or below the node. -/
theorem place_of_mem_visits (h : v ∈ visits G.node fuel n place) :
    v.place = place ∧ ResolvesTo G.node n v.shape ∨
      ∃ g i c, v.place = some (g, i) ∧ G.depth g ≤ G.depth n ∧
        (G.node g).children[i]? = some c ∧ ResolvesTo G.node c v.shape := by
  induction fuel generalizing n place with
  | zero => exact absurd h List.not_mem_nil
  | succ fuel ih =>
    rcases hn : G.node n with - | ⟨kind, children⟩ | (- | actualNode) | -
    · rw [visits_shape hn] at h
      obtain rfl := List.mem_singleton.1 h
      exact .inl ⟨rfl, .shape hn⟩
    · obtain ⟨i, c, hc, hv⟩ := (mem_visits_group hn).1 h
      have hlt := SceneGraph.depth_child_lt hn hc
      rcases ih hv with ⟨hplace, hc'⟩ | ⟨g, j, d, hplace, hle, hd, hd'⟩
      · exact .inr ⟨n, i, c, hplace, Nat.le_refl _, hn ▸ hc, hc'⟩
      · exact .inr ⟨g, j, d, hplace, by omega, hd, hd'⟩
    · rw [visits_protoInstance hn] at h
      exact absurd h List.not_mem_nil
    · rw [visits_protoInstance hn] at h
      have hlt := SceneGraph.depth_actualNode_lt hn
      rcases ih h with ⟨hplace, hc'⟩ | ⟨g, j, d, hplace, hle, hd, hd'⟩
      · exact .inl ⟨hplace, .proto hn hc'⟩
      · exact .inr ⟨g, j, d, hplace, by omega, hd, hd'⟩
    · rw [visits_other hn] at h
      exact absurd h List.not_mem_nil

/-- The visits are valid if the place leads to what the node leads to. -/
theorem isValid_of_mem_visits (h : v ∈ visits G.node fuel n place)
    (hplace : ∀ shape, ResolvesTo G.node n shape → Visit.IsValid G ⟨shape, place⟩) :
    v.IsValid G := by
  obtain ⟨shape, vplace⟩ := v
  rcases place_of_mem_visits h with ⟨rfl, hshape⟩ | ⟨g, i, c, rfl, -, hc, hc'⟩
  · exact hplace shape hshape
  · intro g' i' heq
    obtain ⟨rfl, rfl⟩ := Prod.mk.inj (Option.some.inj heq)
    exact ⟨c, hc, hc'⟩

end Visits

/-! ### The traversal goes through the visits -/

section Truncated

/-- Each group has the first of its children, and the others lead to Shapes. -/
structure Truncated (G : SceneGraph N K) (s : Shaping N K) : Prop where
  group : ∀ n kind children, G.node n = .group kind children →
    ∃ kind' k, k ≤ children.length ∧ s.node n = .group kind' (children.take k) ∧
      ∀ i c, k ≤ i → children[i]? = some c → ∃ shape, ResolvesTo G.node c shape
  same : ∀ n, (∀ kind children, G.node n ≠ .group kind children) → s.node n = G.node n

theorem truncated_start (G : SceneGraph N K) (l : List N) (m : List String) :
    Truncated G ⟨G.node, l, m⟩ where
  group n kind children hn := by
    refine ⟨kind, children.length, Nat.le_refl _, ?_, fun i c hi hc ↦ ?_⟩
    · rw [List.take_length]
      exact hn
    · exact absurd (List.getElem?_eq_some_iff.1 hc).1 (Nat.not_lt.2 hi)
  same n _ := rfl

variable {G : SceneGraph N K} {s t : Shaping N K} {g n : N} {i : ℕ} {kind : GroupKind K}
  {children : List N}

/-- The number of children that are left. -/
theorem Truncated.node_eq (h : Truncated G s) (hn : G.node n = .group kind children) :
    s.countChildren n ≤ children.length ∧
      (∃ kind', s.node n = .group kind' (children.take (s.countChildren n))) ∧
      ∀ i c, s.countChildren n ≤ i → children[i]? = some c →
        ∃ shape, ResolvesTo G.node c shape := by
  obtain ⟨kind', k, hk, hs, hrest⟩ := h.group n kind children hn
  have hcount : s.countChildren n = k := by
    rw [Shaping.countChildren, hs, SceneNode.children, List.length_take_of_le hk]
  rw [hcount]
  exact ⟨hk, ⟨kind', hs⟩, hrest⟩

theorem Truncated.children_eq (h : Truncated G s) (n : N) :
    (s.node n).children = (G.node n).children.take (s.countChildren n) := by
  rcases (G.node n).eq_group_or with ⟨kind, children, hn⟩ | ⟨hne, hnil⟩
  · obtain ⟨-, ⟨kind', hs⟩, -⟩ := h.node_eq hn
    rw [hs, hn]
    rfl
  · rw [h.same n hne, hnil]
    exact List.take_nil.symm

theorem Truncated.convert (h : Truncated G s) (shape : N) : Truncated G (s.convert shape) :=
  ⟨h.group, h.same⟩

theorem take_eraseIdx_last {l : List N} {k : ℕ} (hi : i + 1 = (l.take k).length) :
    (l.take k).eraseIdx i = l.take i := by
  rw [List.length_take] at hi
  rw [List.eraseIdx_eq_take_drop_succ, List.take_take, Nat.min_eq_left (by omega),
    List.drop_eq_nil_of_le (by rw [List.length_take]; omega), List.append_nil]

variable [DecidableEq N]

theorem Truncated.removeChild (h : Truncated G s) (ht : s.removeChild g i = some t)
    (hi : i + 1 = s.countChildren g)
    (hc : ∃ c shape, (G.node g).children[i]? = some c ∧ ResolvesTo G.node c shape) :
    Truncated G t := by
  obtain ⟨hlt, -, ⟨kind', hg⟩, hother⟩ := Shaping.removeChild_eq_some ht
  refine ⟨fun n kind children hn ↦ ?_, fun n hn ↦ ?_⟩
  · rcases eq_or_ne n g with rfl | hne
    · obtain ⟨hle, ⟨kind₁, hs⟩, hrest⟩ := h.node_eq hn
      have hchildren : (s.node n).children = children.take (s.countChildren n) := by
        rw [hs]
        rfl
      refine ⟨kind', i, by omega, ?_, fun j c hj hjc ↦ ?_⟩
      · rw [hg, hchildren, take_eraseIdx_last]
        rw [← hchildren]
        exact hi
      · rcases Nat.eq_or_lt_of_le hj with rfl | hlt'
        · obtain ⟨c', shape, hc', hshape⟩ := hc
          rw [hn] at hc'
          obtain rfl := Option.some.inj (hjc.symm.trans hc')
          exact ⟨shape, hshape⟩
        · exact hrest j c (by omega) hjc
    · rw [hother n hne]
      exact h.group n kind children hn
  · rcases eq_or_ne n g with rfl | hne
    · rcases (G.node n).eq_group_or with ⟨kind, children, heq⟩ | ⟨-, hnil⟩
      · exact absurd heq (hn kind children)
      · rw [Shaping.countChildren, h.same n hn, hnil] at hlt
        exact absurd hlt (Nat.not_lt_zero i)
    · rw [hother n hne]
      exact h.same n hn

variable {conv : List N → N → Bool}

theorem Truncated.visit {v : Visit N} (h : Truncated G s) (hv : v.IsValid G)
    (ht : visit conv s v = some t) : Truncated G t := by
  rcases visit_cases ht with ⟨g, i, -, -, rfl⟩ | ⟨rfl, -⟩ | ⟨g, i, hplace, hi, -, hremove⟩
  · exact h
  · exact h.convert v.shape
  · obtain ⟨c, hc, hshape⟩ := hv g i hplace
    exact (h.convert v.shape).removeChild hremove hi ⟨c, v.shape, hc, hshape⟩

theorem truncated_foldlM {l : List (Visit N)} (h : Truncated G s) (hl : ∀ v ∈ l, v.IsValid G)
    (ht : l.foldlM (visit conv) s = some t) : Truncated G t :=
  foldlM_invariant h (fun _ v hv _ hs hstep ↦ hs.visit (hl v hv) hstep) ht

/-- The visits below child `i` of a group leave its children, but the last one. -/
theorem countChildren_foldlM {l : List (Visit N)} {m : ℕ} (hm : s.countChildren n = m)
    (hl : ∀ v ∈ l, ∀ g j, v.place = some (g, j) → g = n → j = i) (hi : i + 1 < m)
    (ht : l.foldlM (visit conv) s = some t) : t.countChildren n = m := by
  refine foldlM_invariant (I := fun s ↦ s.countChildren n = m) hm (fun s v hv t hs hstep ↦ ?_) ht
  rcases visit_cases hstep with ⟨g, j, -, -, rfl⟩ | ⟨rfl, -⟩ | ⟨g, j, hplace, hj, -, hremove⟩
  · exact hs
  · exact hs
  · rcases eq_or_ne g n with rfl | hne
    · have hji := hl v hv g j hplace rfl
      omega
    · obtain ⟨-, -, -, hother⟩ := Shaping.removeChild_eq_some hremove
      rw [Shaping.countChildren, hother n (Ne.symm hne)]
      exact hs

/-- What the traversal of a node does, given the visits below it. If they cannot be gone through,
the traversal has no result, or a Shape has been removed from its group too early. -/
def GoesThrough (conv : List N → N → Bool) (G : SceneGraph N K) (fuel : ℕ) (s : Shaping N K) (n : N)
    (place : Option (N × ℕ)) : Prop :=
  match (visits G.node fuel n place).foldlM (visit conv) s with
  | some t => ∃ b, traverseShapeNodes conv fuel s n place = some (b, t)
  | none => ∀ r, traverseShapeNodes conv fuel s n place = some r →
      ∃ g i, place = some (g, i) ∧ i + 1 < s.countChildren g ∧
        r.2.countChildren g < s.countChildren g

variable {fuel : ℕ}

theorem goesThrough_shape {place : Option (N × ℕ)} (hs : s.node n = .shape) (hn : G.node n = .shape)
    (hplace : ∀ g i, place = some (g, i) → i < s.countChildren g) :
    GoesThrough conv G (fuel + 1) s n place := by
  have htraverse : traverseShapeNodes conv (fuel + 1) s n place =
      if conv s.converted n then some (true, s.convert n)
      else place.elim (some (false, s.convert n)) fun p ↦
        ((s.convert n).removeChild p.1 p.2).map fun s ↦ (false, s) := by
    rw [traverseShapeNodes.eq_def]
    dsimp only
    rw [hs]
    cases place <;> rfl
  rw [GoesThrough, visits_shape hn, List.foldlM_cons, htraverse]
  rcases place with - | ⟨g, i⟩
  · dsimp only [visit, List.foldlM_nil, Option.elim]
    split_ifs
    · exact ⟨true, rfl⟩
    · exact ⟨false, rfl⟩
  · have hi := hplace g i rfl
    dsimp only [visit, List.foldlM_nil, Option.elim]
    rw [if_pos hi]
    split_ifs with hconv hlast
    · exact ⟨true, rfl⟩
    · rcases hremove : (s.convert n).removeChild g i with - | t
      · exact fun r hr ↦ by cases hr
      · exact ⟨false, rfl⟩
    · intro r hr
      obtain ⟨t, ht, rfl⟩ := Option.map_eq_some_iff.1 hr
      have hcount := countChildren_removeChild ht
      refine ⟨g, i, rfl, by omega, ?_⟩
      rw [show (s.convert n).countChildren g = s.countChildren g from rfl] at hcount
      dsimp only
      omega

/-- The loop over the children of a group goes through the visits below them. -/
theorem loop_goesThrough
    (ih : ∀ {s : Shaping N K} {n : N} {place : Option (N × ℕ)}, Truncated G s →
      G.depth n < fuel → (∀ shape, ResolvesTo G.node n shape → Visit.IsValid G ⟨shape, place⟩) →
      (∀ g i, place = some (g, i) → i < s.countChildren g) → GoesThrough conv G fuel s n place)
    (h : Truncated G s) (hn : G.node n = .group kind children) (hfuel : G.depth n < fuel + 1)
    {j : ℕ} (hj : j ≤ s.countChildren n) :
    let step := fun (t : Shaping N K) i ↦ (t.node n).children[i]?.bind fun child ↦
      (traverseShapeNodes conv fuel t child (some (n, i))).map Prod.snd
    let visitChild := fun (t : Shaping N K) i ↦
      (children[i]?.elim [] fun child ↦ visits G.node fuel child (some (n, i))).foldlM
        (visit conv) t
    match (List.range j).foldlM visitChild s with
    | some t => (List.range j).foldlM step s = some t ∧ Truncated G t ∧
        (j < s.countChildren n → t.countChildren n = s.countChildren n)
    | none => ∀ t, (List.range j).foldlM step s = some t →
        t.countChildren n < s.countChildren n ∧ j < s.countChildren n := by
  intro step visitChild
  have hlen := (h.node_eq hn).1
  induction j with
  | zero => exact ⟨rfl, h, fun _ ↦ rfl⟩
  | succ j ihj =>
    have hprev := ihj (by omega)
    have hstep (t : Option (Shaping N K)) (f : Shaping N K → ℕ → Option (Shaping N K))
        (ht : (List.range j).foldlM f s = t) :
        (List.range (j + 1)).foldlM f s = t.bind (f · j) := by
      rw [List.range_succ, List.foldlM_append, ht]
      cases t with
      | none => rfl
      | some t => exact bind_pure (m := Option) (f t j)
    have hle (t : Shaping N K) {t' : Shaping N K} (ht : step t j = some t') :
        t'.countChildren n ≤ t.countChildren n := by
      obtain ⟨child, -, hchild⟩ := Option.bind_eq_some_iff.1 ht
      obtain ⟨r, hr, rfl⟩ := Option.map_eq_some_iff.1 hchild
      exact countChildren_traverseShapeNodes_le hr n
    rcases hvisits : (List.range j).foldlM visitChild s with - | t <;> rw [hvisits] at hprev
    · -- a child has been removed too early: the last one cannot be read
      rw [hstep none visitChild hvisits]
      intro t' ht'
      rcases hloop : (List.range j).foldlM step s with - | t
      · rw [hstep none step hloop] at ht'
        cases ht'
      · rw [hstep _ step hloop, Option.bind_some] at ht'
        obtain ⟨hlt, hjlt⟩ := hprev t hloop
        have hle' := hle t ht'
        refine ⟨by omega, ?_⟩
        rcases Nat.lt_or_ge (j + 1) (s.countChildren n) with hlt' | hge
        · exact hlt'
        · obtain ⟨child, hchild, -⟩ := Option.bind_eq_some_iff.1 ht'
          have hread := (List.getElem?_eq_some_iff.1 hchild).1
          rw [show (t.node n).children.length = t.countChildren n from rfl] at hread
          omega
    · obtain ⟨hloop, htrunc, hcount⟩ := hprev
      have hcount := hcount (by omega)
      rw [hstep _ visitChild hvisits, hstep _ step hloop]
      obtain ⟨c, hc⟩ : ∃ c, children[j]? = some c :=
        ⟨_, List.getElem?_eq_getElem (by omega)⟩
      have hread : (t.node n).children[j]? = some c := by
        rw [htrunc.children_eq, hn, hcount, List.getElem?_take_of_lt (by omega)]
        exact hc
      have hdepth := SceneGraph.depth_child_lt hn hc
      have hvalid : ∀ shape, ResolvesTo G.node c shape →
          Visit.IsValid G ⟨shape, some (n, j)⟩ := fun shape hshape g i heq ↦ by
        obtain ⟨rfl, rfl⟩ := Prod.mk.inj (Option.some.inj heq)
        exact ⟨c, hn ▸ hc, hshape⟩
      have hgo := ih htrunc (by omega : G.depth c < fuel) hvalid fun g i heq ↦ by
        obtain ⟨rfl, rfl⟩ := Prod.mk.inj (Option.some.inj heq)
        omega
      have hchild : visitChild t j =
          (visits G.node fuel c (some (n, j))).foldlM (visit conv) t := by
        dsimp only [visitChild]
        rw [hc]
        rfl
      have hread' : step t j =
          (traverseShapeNodes conv fuel t c (some (n, j))).map Prod.snd := by
        dsimp only [step]
        rw [hread]
        rfl
      rw [Option.bind_some, Option.bind_some, hchild, hread']
      rw [GoesThrough] at hgo
      rcases hfold : (visits G.node fuel c (some (n, j))).foldlM (visit conv) t with - | t' <;>
        rw [hfold] at hgo
      · intro t' ht'
        obtain ⟨r, hr, rfl⟩ := Option.map_eq_some_iff.1 ht'
        obtain ⟨g, i, heq, hi, hlt⟩ := hgo r hr
        obtain ⟨rfl, rfl⟩ := Prod.mk.inj (Option.some.inj heq)
        omega
      · obtain ⟨b, hb⟩ := hgo
        refine ⟨by rw [hb]; rfl, truncated_foldlM htrunc
          (fun v hv ↦ isValid_of_mem_visits hv hvalid) hfold, fun hj' ↦ ?_⟩
        refine countChildren_foldlM hcount (fun v hv g i hplace hg ↦ ?_) hj' hfold
        rcases place_of_mem_visits hv with ⟨heq, -⟩ | ⟨g', i', d, heq, hle', -⟩
        · exact (Prod.mk.inj (Option.some.inj (hplace.symm.trans heq))).2
        · obtain ⟨rfl, rfl⟩ := Prod.mk.inj (Option.some.inj (hplace.symm.trans heq))
          subst hg
          omega

/-- A group is gone through: the children that have been removed are not visited. -/
theorem goesThrough_group {place : Option (N × ℕ)}
    (ih : ∀ {s : Shaping N K} {n : N} {place : Option (N × ℕ)}, Truncated G s →
      G.depth n < fuel → (∀ shape, ResolvesTo G.node n shape → Visit.IsValid G ⟨shape, place⟩) →
      (∀ g i, place = some (g, i) → i < s.countChildren g) → GoesThrough conv G fuel s n place)
    (h : Truncated G s) (hn : G.node n = .group kind children) (hfuel : G.depth n < fuel + 1) :
    GoesThrough conv G (fuel + 1) s n place := by
  obtain ⟨hle, ⟨kind', hs⟩, hrest⟩ := h.node_eq hn
  have hlen : (children.take (s.countChildren n)).length = s.countChildren n :=
    List.length_take_of_le hle
  have hloop := loop_goesThrough ih h hn hfuel (Nat.le_refl (s.countChildren n))
  dsimp only at hloop
  have htraverse : traverseShapeNodes conv (fuel + 1) s n place =
      ((List.range (s.countChildren n)).foldlM (fun t i ↦
        (t.node n).children[i]?.bind fun child ↦
          (traverseShapeNodes conv fuel t child (some (n, i))).map Prod.snd) s).map
        fun s ↦ (true, s) := by
    rw [traverseShapeNodes.eq_def]
    dsimp only
    rw [hs]
    dsimp only
    rw [hlen]
  rw [GoesThrough, visits_group hn, foldlM_flatMap, htraverse]
  have hrange : List.range children.length = List.range (s.countChildren n) ++
      List.range' (s.countChildren n) (children.length - s.countChildren n) := by
    have happend : List.range' 0 (s.countChildren n) ++ List.range' (0 + s.countChildren n)
        (children.length - s.countChildren n) = _ := List.range'_append_1
    rw [Nat.zero_add, Nat.add_sub_of_le hle] at happend
    rw [List.range_eq_range', List.range_eq_range', happend]
  rw [hrange, List.foldlM_append]
  rcases hfold : (List.range (s.countChildren n)).foldlM (fun t i ↦
      (children[i]?.elim [] fun child ↦ visits G.node fuel child (some (n, i))).foldlM
        (visit conv) t) s with - | t <;> rw [hfold] at hloop
  · intro r hr
    obtain ⟨t, ht, rfl⟩ := Option.map_eq_some_iff.1 hr
    exact absurd (hloop t ht).2 (Nat.lt_irrefl _)
  · obtain ⟨hrun, htrunc, -⟩ := hloop
    have hle' : t.countChildren n ≤ s.countChildren n := by
      have hgo := countChildren_traverseShapeNodes_le
        (htraverse.trans (congrArg (Option.map fun s ↦ (true, s)) hrun)) n
      exact hgo
    have hskip : (List.range' (s.countChildren n)
        (children.length - s.countChildren n)).foldlM (fun t i ↦
          (children[i]?.elim [] fun child ↦ visits G.node fuel child (some (n, i))).foldlM
            (visit conv) t) t = some t := by
      refine foldlM_eq_self fun i hi ↦ ?_
      rw [List.mem_range'_1] at hi
      have hc : children[i]? = some children[i] := List.getElem?_eq_getElem (by omega)
      obtain ⟨shape, hshape⟩ := hrest i _ hi.1 hc
      have hdepth := SceneGraph.depth_child_lt hn hc
      rw [hc, Option.elim, visits_of_resolvesTo hshape (by omega)]
      have hnot : ¬i < t.countChildren n := by omega
      rw [List.foldlM_cons, visit]
      dsimp only
      rw [if_neg hnot]
      rfl
    rw [Option.bind_eq_bind, Option.bind_some, hskip, hrun]
    exact ⟨true, rfl⟩

/-- **The traversal goes through the visits.** -/
theorem traverseShapeNodes_visits {s : Shaping N K} {n : N}
    {place : Option (N × ℕ)} (h : Truncated G s) (hfuel : G.depth n < fuel)
    (hvalid : ∀ shape, ResolvesTo G.node n shape → Visit.IsValid G ⟨shape, place⟩)
    (hplace : ∀ g i, place = some (g, i) → i < s.countChildren g) :
    GoesThrough conv G fuel s n place := by
  induction fuel generalizing s n place with
  | zero => exact absurd hfuel (Nat.not_lt_zero _)
  | succ fuel ih =>
    rcases hn : G.node n with - | ⟨kind, children⟩ | (- | actualNode) | -
    · have hs := h.same n fun kind children heq ↦ by rw [hn] at heq; cases heq
      exact goesThrough_shape (hs.trans hn) hn hplace
    · exact goesThrough_group ih h hn hfuel
    · have hs := h.same n fun kind children heq ↦ by rw [hn] at heq; cases heq
      rw [GoesThrough, visits_protoInstance hn]
      refine ⟨true, ?_⟩
      rw [traverseShapeNodes.eq_def]
      dsimp only
      rw [hs, hn]
    · have hs := h.same n fun kind children heq ↦ by rw [hn] at heq; cases heq
      have hlt := SceneGraph.depth_actualNode_lt hn
      have hgo : GoesThrough conv G fuel s actualNode place :=
        ih h (by omega) (fun shape hshape ↦ hvalid shape (.proto hn hshape)) hplace
      have htraverse : traverseShapeNodes conv (fuel + 1) s n place =
          (traverseShapeNodes conv fuel s actualNode place).map fun r ↦ (true, r.2) := by
        rw [traverseShapeNodes.eq_def]
        dsimp only
        rw [hs, hn]
      rw [GoesThrough] at hgo ⊢
      rw [visits_protoInstance hn, Option.elim, htraverse]
      rcases hfold : (visits G.node fuel actualNode place).foldlM (visit conv) s with - | t <;>
        rw [hfold] at hgo
      · intro r hr
        obtain ⟨r', hr', rfl⟩ := Option.map_eq_some_iff.1 hr
        exact hgo r' hr'
      · obtain ⟨b, hb⟩ := hgo
        exact ⟨true, by rw [hb]; rfl⟩
    · have hs := h.same n fun kind children heq ↦ by rw [hn] at heq; cases heq
      rw [GoesThrough, visits_other hn]
      refine ⟨true, ?_⟩
      rw [traverseShapeNodes.eq_def]
      dsimp only
      rw [hs, hn]

end Truncated

end OpenHRP.TriangleMeshShaper
