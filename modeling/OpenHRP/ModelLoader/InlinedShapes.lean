import OpenHRP.ModelLoader.ShapeSetInfo

/-!
# Inlined shapes

`traverseShapeNodes` counts the Inline nodes around it in a static variable, `inline_count`, which
it increments before it looks at the children of an Inline node and decrements after that. An
exception on the way leaves the count as it is. Exceptions are thrown while a Shape node is made a
shape, by an ImageTexture node without urls (`setTexturefileUrl`) or by an image file that cannot be
read (`convert`).

The Shape nodes that are visible in a scene graph are listed by `visible`, in depth-first order,
with the transforms above them and the outermost Inline node around them. From a count of zero, the
traversal visits them one after the other, and the count that it leaves is zero unless the visit to
a Shape node in an Inline node throws (`outcome_traverseShapeNodes`).
-/

namespace OpenHRP.InlinedShapes

open ModelLoader (Matrix44 SFImage MaterialInfo VrmlIndexedFaceSet ShapePrimitiveType Collector
  Traversal TransformedShapeIndex short upperRows)

variable {K : Type}

/-! ### The scene graph -/

/-- A texture node. -/
inductive VrmlTexture where
  | pixel (image : SFImage) (repeatS repeatT : Bool)
  | image (urls : List String) (repeatS repeatT : Bool)
  | movie

/-- An Appearance node. -/
structure VrmlAppearance (K : Type) where
  material : Option (MaterialInfo K)
  texture : Option VrmlTexture

/-- A Shape node, with the geometry that it has after `applyTriangleMeshShaper`. -/
structure VrmlShape (K : Type) where
  geometry : Option (VrmlIndexedFaceSet K)
  /-- What `setPrimitiveProperties` reads from the geometry that the mesh was made of. -/
  primitiveType : ShapePrimitiveType
  primitiveParameters : List K
  appearance : Option (VrmlAppearance K)

/-- A node of the scene graph. Shape nodes are given by their addresses: a node that is used in
several places has one. -/
inductive VrmlNode (K : Type) where
  | protoInstance (actualNode : Option (VrmlNode K))
  | group (children : List (VrmlNode K))
  /-- A Transform node, with the matrix that `calcTransformMatrix` makes of its fields. -/
  | transform (Tlocal : Matrix44 K) (children : List (VrmlNode K))
  | inline (urls : List String) (children : List (VrmlNode K))
  | switch (whichChoice : ℤ) (children : List (VrmlNode K))
  | shape (address : ℕ)
  | other

/-! ### The traversal -/

/-- What the traversal does not change: the Shape nodes at the addresses, and the image files. -/
structure Files (K : Type) where
  shapeNode : ℕ → VrmlShape K
  readImage : Bool
  /-- `getPathFromUrl`, relative to the directory of a model file, which is given by its url. There
  is nothing at a url whose path is empty. -/
  getPathFromUrl : String → String → String
  convert : String → Except String SFImage

/-- `setTexturefileUrl`: the first url that there is. -/
def setTexturefileUrl (getPathFromUrl : String → String) (urls : List String) :
    Except String String :=
  if urls = [] then .error "ImageTexture read error: No urls in ImageTexture node"
  else .ok (((urls.map getPathFromUrl).find? (· ≠ "")).getD "")

/-- What `createTextureInfo` finds: the texture with the url of its image file, and the image that
is read from the file. -/
def findTexture (files : Files K) (url : String) :
    VrmlTexture → Except String (ModelLoader.VrmlTexture × SFImage)
  | .pixel image repeatS repeatT => .ok (.pixel image repeatS repeatT, image)
  | .image urls repeatS repeatT => do
    let path ← setTexturefileUrl (files.getPathFromUrl url) urls
    let image ← if files.readImage ∧ path ≠ "" then files.convert path else .ok ⟨0, 0, 0, []⟩
    .ok (.image path repeatS repeatT, image)
  | .movie => .ok (.movie, ⟨0, 0, 0, []⟩)

/-- The texture of a Shape node, if it has one. -/
def findShapeTexture (files : Files K) (url : String) (shapeNode : VrmlShape K) :
    Except String (Option (ModelLoader.VrmlTexture × SFImage)) :=
  match shapeNode.appearance.bind VrmlAppearance.texture with
  | none => .ok none
  | some texture => (findTexture files url texture).map some

/-- A Shape node whose texture has been found. -/
def VrmlShape.found (shapeNode : VrmlShape K) (texture : Option ModelLoader.VrmlTexture) :
    ModelLoader.VrmlShape K :=
  ⟨shapeNode.geometry, shapeNode.primitiveType, shapeNode.primitiveParameters,
    shapeNode.appearance.map fun appearance ↦ ⟨appearance.material, texture⟩⟩

/-- `createShapeInfo`, which throws when the texture cannot be found. What it has appended to the
sequences by then is lost with the exception. -/
def createShapeInfo (files : Files K) (s : Collector K) (address : ℕ) (url : String) :
    Except String (ℤ × Collector K) :=
  match (files.shapeNode address).geometry with
  | none => .ok (-1, s)
  | some _ => do
    let texture ← findShapeTexture files url (files.shapeNode address)
    .ok (ModelLoader.createShapeInfo files.readImage
      (fun _ ↦ (texture.map Prod.snd).getD ⟨0, 0, 0, []⟩) s address
      ((files.shapeNode address).found (texture.map Prod.fst)) url)

/-- The number of a Shape node, which is made a shape when it was not met before. -/
def shapeInfoIndexOf (files : Files K) (s : Collector K) (address : ℕ) (url : String) :
    Except String (ℤ × Collector K) :=
  match s.shapeInfoIndexMap address with
  | some index => .ok (index, s)
  | none => createShapeInfo files s address url

/-- `traverseShapeNodes` at a Shape node. -/
def visitShape (files : Files K) (address : ℕ) (T : Matrix44 K) (inline_count : ℤ) (url : String)
    (s : Traversal K) : Except String (Traversal K) := do
  let found ← shapeInfoIndexOf files s.collector address url
  let shapeInfoIndex := short found.1
  if 0 ≤ shapeInfoIndex then
    let inlinedIndex := if inline_count = 0 then -1 else short (s.inlinedShapeM.length - 1)
    .ok ⟨found.2, s.shapeIndices ++ [⟨upperRows T, inlinedIndex, shapeInfoIndex⟩], s.inlinedShapeM⟩
  else .ok ⟨found.2, s.shapeIndices, s.inlinedShapeM⟩

/-- What a call leaves: an exception or the sequences, and in any case the static `inline_count`. -/
abbrev Result (K : Type) := Except String (Traversal K) × ℤ

/-- What follows a call, unless that throws. -/
def Result.andThen (r : Result K) (f : Traversal K → ℤ → Result K) : Result K :=
  match r.1 with
  | .ok s => f s r.2
  | .error e => (.error e, r.2)

section Traverse

variable [NonUnitalNonAssocSemiring K] (files : Files K)

mutual

/-- `traverseShapeNodes`. -/
def traverseShapeNodes : VrmlNode K → Matrix44 K → String → Traversal K → ℤ → Result K
  | .protoInstance none, _, _, s, inline_count => (.ok s, inline_count)
  | .protoInstance (some actualNode), T, url, s, inline_count =>
    traverseShapeNodes actualNode T url s inline_count
  | .group children, T, url, s, inline_count => traverseChildren children T url s inline_count
  | .transform Tlocal children, T, url, s, inline_count =>
    traverseChildren children (T * Tlocal) url s inline_count
  | .inline urls children, T, url, s, inline_count =>
    (if inline_count = 0 then
      traverseChildren children T (urls.headD "")
        ⟨s.collector, s.shapeIndices, s.inlinedShapeM ++ [upperRows T]⟩ (inline_count + 1)
    else traverseChildren children T url s (inline_count + 1)).andThen
      fun s inline_count ↦ (.ok s, inline_count - 1)
  | .switch whichChoice children, T, url, s, inline_count =>
    if 0 ≤ whichChoice then traverseChoice children whichChoice.toNat T url s inline_count
    else (.ok s, inline_count)
  | .shape address, T, url, s, inline_count =>
    (visitShape files address T inline_count url s, inline_count)
  | .other, _, _, s, inline_count => (.ok s, inline_count)

/-- The loop over the children of a grouping node. -/
def traverseChildren : List (VrmlNode K) → Matrix44 K → String → Traversal K → ℤ → Result K
  | [], _, _, s, inline_count => (.ok s, inline_count)
  | node :: nodes, T, url, s, inline_count =>
    (traverseShapeNodes node T url s inline_count).andThen
      fun s inline_count ↦ traverseChildren nodes T url s inline_count

/-- The child of a Switch node that is chosen, if there is one. -/
def traverseChoice : List (VrmlNode K) → ℕ → Matrix44 K → String → Traversal K → ℤ → Result K
  | [], _, _, _, s, inline_count => (.ok s, inline_count)
  | node :: _, 0, T, url, s, inline_count => traverseShapeNodes node T url s inline_count
  | _ :: nodes, n + 1, T, url, s, inline_count => traverseChoice nodes n T url s inline_count

end

end Traverse

/-! ### The visible shapes -/

/-- A Shape node where it is visible. -/
structure Occurrence (K : Type) where
  /-- The transforms above it, from the outermost on. -/
  transforms : List (Matrix44 K)
  address : ℕ
  /-- The url of the model file that it is in. -/
  url : String
  /-- The outermost Inline node around it: its number and the transforms above it. -/
  inlined : Option (ℕ × List (Matrix44 K))

/-- A Shape node below an Inline node, with the transforms above it. -/
def Occurrence.below (inlined : ℕ × List (Matrix44 K)) (url : String)
    (shape : List (Matrix44 K) × ℕ) : Occurrence K :=
  ⟨shape.1, shape.2, url, some inlined⟩

mutual

/-- The visible Shape nodes, in depth-first order, with the transforms above them. -/
def shapes : List (Matrix44 K) → VrmlNode K → List (List (Matrix44 K) × ℕ)
  | _, .protoInstance none => []
  | Ts, .protoInstance (some actualNode) => shapes Ts actualNode
  | Ts, .group children => shapesChildren Ts children
  | Ts, .transform Tlocal children => shapesChildren (Ts ++ [Tlocal]) children
  | Ts, .inline _ children => shapesChildren Ts children
  | Ts, .switch whichChoice children =>
    if 0 ≤ whichChoice then shapesChoice Ts children whichChoice.toNat else []
  | Ts, .shape address => [(Ts, address)]
  | _, .other => []

@[inherit_doc shapes]
def shapesChildren : List (Matrix44 K) → List (VrmlNode K) → List (List (Matrix44 K) × ℕ)
  | _, [] => []
  | Ts, node :: nodes => shapes Ts node ++ shapesChildren Ts nodes

@[inherit_doc shapes]
def shapesChoice : List (Matrix44 K) → List (VrmlNode K) → ℕ → List (List (Matrix44 K) × ℕ)
  | _, [], _ => []
  | Ts, node :: _, 0 => shapes Ts node
  | Ts, _ :: nodes, n + 1 => shapesChoice Ts nodes n

end

mutual

/-- The transforms above the visible Inline nodes that are in no other. -/
def inlines : List (Matrix44 K) → VrmlNode K → List (List (Matrix44 K))
  | _, .protoInstance none => []
  | Ts, .protoInstance (some actualNode) => inlines Ts actualNode
  | Ts, .group children => inlinesChildren Ts children
  | Ts, .transform Tlocal children => inlinesChildren (Ts ++ [Tlocal]) children
  | Ts, .inline _ _ => [Ts]
  | Ts, .switch whichChoice children =>
    if 0 ≤ whichChoice then inlinesChoice Ts children whichChoice.toNat else []
  | _, .shape _ => []
  | _, .other => []

@[inherit_doc inlines]
def inlinesChildren : List (Matrix44 K) → List (VrmlNode K) → List (List (Matrix44 K))
  | _, [] => []
  | Ts, node :: nodes => inlines Ts node ++ inlinesChildren Ts nodes

@[inherit_doc inlines]
def inlinesChoice : List (Matrix44 K) → List (VrmlNode K) → ℕ → List (List (Matrix44 K))
  | _, [], _ => []
  | Ts, node :: _, 0 => inlines Ts node
  | Ts, _ :: nodes, n + 1 => inlinesChoice Ts nodes n

end

mutual

/-- The visible Shape nodes, in depth-first order, with what is known of each. The Inline nodes are
numbered from `k` on. -/
def visible (url : String) : ℕ → List (Matrix44 K) → VrmlNode K → List (Occurrence K)
  | _, _, .protoInstance none => []
  | k, Ts, .protoInstance (some actualNode) => visible url k Ts actualNode
  | k, Ts, .group children => visibleChildren url k Ts children
  | k, Ts, .transform Tlocal children => visibleChildren url k (Ts ++ [Tlocal]) children
  | k, Ts, .inline urls children =>
    (shapesChildren Ts children).map (.below (k, Ts) (urls.headD ""))
  | k, Ts, .switch whichChoice children =>
    if 0 ≤ whichChoice then visibleChoice url k Ts children whichChoice.toNat else []
  | _, Ts, .shape address => [⟨Ts, address, url, none⟩]
  | _, _, .other => []

@[inherit_doc visible]
def visibleChildren (url : String) :
    ℕ → List (Matrix44 K) → List (VrmlNode K) → List (Occurrence K)
  | _, _, [] => []
  | k, Ts, node :: nodes =>
    visible url k Ts node ++ visibleChildren url (k + (inlines Ts node).length) Ts nodes

@[inherit_doc visible]
def visibleChoice (url : String) :
    ℕ → List (Matrix44 K) → List (VrmlNode K) → ℕ → List (Occurrence K)
  | _, _, [], _ => []
  | k, Ts, node :: _, 0 => visible url k Ts node
  | k, Ts, _ :: nodes, n + 1 => visibleChoice url k Ts nodes n

end

/-- The index of the outermost Inline node around a Shape node, `-1` when there is none. -/
def Occurrence.inlinedIndex (o : Occurrence K) : ℤ :=
  match o.inlined with
  | none => -1
  | some inlined => inlined.1

/-! ### Visiting the visible shapes -/

/-- The part of a `Traversal` that a visit changes. -/
structure Listing (K : Type) where
  collector : Collector K
  shapeIndices : List (TransformedShapeIndex K)

/-- A traversal, with the transforms of the Inline nodes. -/
def Listing.traversal (s : Listing K) (inlinedShapeM : List (Fin 12 → K)) : Traversal K :=
  ⟨s.collector, s.shapeIndices, inlinedShapeM⟩

/-- The listing of a traversal. -/
def listingOf (s : Traversal K) : Listing K :=
  ⟨s.collector, s.shapeIndices⟩

section Visits

variable [Semiring K] (files : Files K) (T : Matrix44 K)

/-- The matrix of the transforms above a Shape node, from the top of the traversal on. -/
def matrixOf (Ts : List (Matrix44 K)) : Fin 12 → K :=
  upperRows (T * Ts.prod)

/-- A visit at a visible Shape node. -/
def visit (s : Listing K) (o : Occurrence K) : Except String (Listing K) :=
  (shapeInfoIndexOf files s.collector o.address o.url).map fun found ↦
    ⟨found.2, s.shapeIndices ++ if 0 ≤ short found.1 then
      [⟨matrixOf T o.transforms, short o.inlinedIndex, short found.1⟩] else []⟩

/-- The first Shape node whose visit throws. -/
def failure : List (Occurrence K) → Listing K → Option (Occurrence K)
  | [], _ => none
  | o :: l, s =>
    match visit files T s o with
    | .ok s' => failure l s'
    | .error _ => some o

variable {files T} {l l' : List (Occurrence K)} {s t : Listing K} {M M' : List (Fin 12 → K)} {n : ℤ}

theorem failure_append_of_ok (h : l.foldlM (visit files T) s = .ok t) :
    failure files T (l ++ l') s = failure files T l' t := by
  induction l generalizing s with
  | nil => rw [List.nil_append, Except.ok.inj h]
  | cons o l ih =>
    rw [List.foldlM_cons] at h
    rw [List.cons_append, failure]
    rcases ho : visit files T s o with e | s'
    · rw [ho] at h
      nomatch h
    · rw [ho] at h
      exact ih h

theorem failure_append_of_error {e : String} (h : l.foldlM (visit files T) s = .error e) :
    failure files T (l ++ l') s = failure files T l s := by
  induction l generalizing s with
  | nil => nomatch h
  | cons o l ih =>
    rw [List.foldlM_cons] at h
    rw [List.cons_append, failure, failure]
    rcases ho : visit files T s o with e | s'
    · rfl
    · rw [ho] at h
      exact ih h

theorem mem_of_failure {o : Occurrence K} (h : failure files T l s = some o) : o ∈ l := by
  induction l generalizing s with
  | nil => nomatch h
  | cons o' l ih =>
    rw [failure] at h
    rcases ho : visit files T s o' with e | s'
    · rw [ho] at h
      exact Option.some.inj h ▸ List.mem_cons_self
    · rw [ho] at h
      exact List.mem_cons_of_mem _ (ih h)

variable (files T) in
/-- A call with the count `n` visits the Shape nodes `l`. The count is `n` again when it returns;
after an exception it is zero only if it was and the Shape node is in no Inline node. -/
structure Outcome (l : List (Occurrence K)) (s : Listing K) (M : List (Fin 12 → K)) (n : ℤ)
    (r : Result K) : Prop where
  fst : r.1 = (l.foldlM (visit files T) s).map (Listing.traversal · M)
  snd_of_ok : ∀ t, l.foldlM (visit files T) s = .ok t → r.2 = n
  snd_of_failure : ∀ o, failure files T l s = some o → (r.2 = 0 ↔ n = 0 ∧ o.inlined = none)

theorem Outcome.nil (s : Listing K) (M : List (Fin 12 → K)) (n : ℤ) :
    Outcome files T [] s M n (.ok (s.traversal M), n) :=
  ⟨rfl, fun _ _ ↦ rfl, nofun⟩

theorem Outcome.shape {o : Occurrence K} {r : Except String (Traversal K)}
    (hr : r = (visit files T s o).map (Listing.traversal · M))
    (ho : n = 0 ↔ o.inlined = none) : Outcome files T [o] s M n (r, n) := by
  refine ⟨?_, fun _ _ ↦ rfl, fun o' h ↦ ?_⟩
  · rw [hr, List.foldlM_cons]
    rcases visit files T s o with e | t
    · rfl
    · rfl
  · obtain rfl := List.mem_singleton.1 (mem_of_failure h)
    rw [ho, and_self]

variable {r : Result K}

section

omit [Semiring K]

theorem Result.andThen_of_ok {s : Traversal K} (h : r = (.ok s, n)) (f : Traversal K → ℤ → Result K)
    : r.andThen f = f s n := by
  rw [h]
  rfl

theorem Result.andThen_of_error {e : String} (h : r.1 = .error e) (f : Traversal K → ℤ → Result K) :
    r.andThen f = (.error e, r.2) := by
  rw [Result.andThen, h]

end

theorem Outcome.eq_of_ok (h : Outcome files T l s M n r) (ht : l.foldlM (visit files T) s = .ok t) :
    r = (.ok (t.traversal M), n) := by
  refine Prod.ext ?_ (h.snd_of_ok t ht)
  rw [h.fst, ht]
  rfl

theorem Outcome.fst_of_error {e : String} (h : Outcome files T l s M n r)
    (ht : l.foldlM (visit files T) s = .error e) : r.1 = .error e := by
  rw [h.fst, ht]
  rfl

theorem Outcome.andThen {f : Traversal K → ℤ → Result K} (h : Outcome files T l s M n r)
    (hf : ∀ t, Outcome files T l' t M' n (f (t.traversal M) n)) :
    Outcome files T (l ++ l') s M' n (r.andThen f) := by
  rcases ht : l.foldlM (visit files T) s with e | t
  · rw [Result.andThen_of_error (h.fst_of_error ht)]
    refine ⟨?_, fun t ht' ↦ ?_, fun o ho ↦ ?_⟩
    · rw [List.foldlM_append, ht]
      rfl
    · rw [List.foldlM_append, ht] at ht'
      nomatch ht'
    · rw [failure_append_of_error ht] at ho
      exact h.snd_of_failure o ho
  · rw [Result.andThen_of_ok (h.eq_of_ok ht)]
    refine ⟨?_, fun u hu ↦ ?_, fun o ho ↦ ?_⟩
    · rw [List.foldlM_append, ht]
      exact (hf t).fst
    · rw [List.foldlM_append, ht] at hu
      exact (hf t).snd_of_ok u hu
    · rw [failure_append_of_ok ht] at ho
      exact (hf t).snd_of_failure o ho

theorem Outcome.leave (h : Outcome files T l s M (n + 1) r) (hn : 0 ≤ n)
    (hl : ∀ o ∈ l, o.inlined ≠ none) :
    Outcome files T l s M n (r.andThen fun s inline_count ↦ (.ok s, inline_count - 1)) := by
  rcases ht : l.foldlM (visit files T) s with e | t
  · rw [Result.andThen_of_error (h.fst_of_error ht)]
    refine ⟨by rw [ht]; rfl, fun t ht' ↦ (nomatch ht.symm.trans ht'), fun o ho ↦ ?_⟩
    have hne := hl o (mem_of_failure ho)
    exact (h.snd_of_failure o ho).trans ⟨fun h ↦ absurd h.1 (by omega), fun h ↦ absurd h.2 hne⟩
  · rw [Result.andThen_of_ok (h.eq_of_ok ht)]
    refine ⟨by rw [ht]; rfl, fun _ _ ↦ add_sub_cancel_right n 1, fun o ho ↦ ?_⟩
    rw [← List.append_nil l, failure_append_of_ok ht] at ho
    nomatch ho

theorem visitShape_eq {o : Occurrence K} (files : Files K)
    (hindex : short o.inlinedIndex = if n = 0 then -1 else short (M.length - 1)) :
    visitShape files o.address (T * o.transforms.prod) n o.url (s.traversal M) =
      (visit files T s o).map (Listing.traversal · M) := by
  rw [visitShape, visit, hindex]
  show (shapeInfoIndexOf files s.collector o.address o.url >>= _) = _
  rcases shapeInfoIndexOf files s.collector o.address o.url with e | found
  · rfl
  · show (if 0 ≤ short found.1 then _ else _) = _
    dsimp only [Except.map]
    split_ifs
    · rfl
    · rfl
    · rw [List.append_nil]
      rfl

theorem transform_prod (Ts : List (Matrix44 K)) (Tlocal : Matrix44 K) :
    T * Ts.prod * Tlocal = T * (Ts ++ [Tlocal]).prod := by
  rw [List.prod_append, List.prod_singleton, mul_assoc]

section Below

variable {inlined : ℕ × List (Matrix44 K)} (url : String)

mutual

/-- A call below an Inline node visits the visible Shape nodes. -/
theorem outcome_below (hM : M.length = inlined.1 + 1) : ∀ (node : VrmlNode K)
    (Ts : List (Matrix44 K)) (s : Listing K) {n : ℤ}, 0 < n →
      Outcome files T ((shapes Ts node).map (.below inlined url)) s M n
        (traverseShapeNodes files node (T * Ts.prod) url (s.traversal M) n)
  | .protoInstance none, Ts, s, n, _ => by
    rw [shapes, traverseShapeNodes]
    exact .nil s M n
  | .protoInstance (some actualNode), Ts, s, n, hn => by
    rw [shapes, traverseShapeNodes]
    exact outcome_below hM actualNode Ts s hn
  | .group children, Ts, s, n, hn => by
    rw [shapes, traverseShapeNodes]
    exact outcome_belowChildren hM children Ts s hn
  | .transform Tlocal children, Ts, s, n, hn => by
    rw [shapes, traverseShapeNodes, transform_prod]
    exact outcome_belowChildren hM children (Ts ++ [Tlocal]) s hn
  | .inline urls children, Ts, s, n, hn => by
    rw [shapes, traverseShapeNodes, if_neg hn.ne']
    refine (outcome_belowChildren hM children Ts s (by omega)).leave hn.le fun o ho ↦ ?_
    obtain ⟨shape, -, rfl⟩ := List.mem_map.1 ho
    nofun
  | .switch whichChoice children, Ts, s, n, hn => by
    rw [shapes, traverseShapeNodes]
    split_ifs
    · exact outcome_belowChoice hM children _ Ts s hn
    · exact .nil s M n
  | .shape address, Ts, s, n, hn => by
    rw [shapes, traverseShapeNodes]
    refine .shape (visitShape_eq (o := .below inlined url (Ts, address)) files ?_) ?_
    · rw [if_neg hn.ne', hM, Nat.cast_add, Nat.cast_one, add_sub_cancel_right]
      rfl
    · exact ⟨fun h ↦ absurd h hn.ne', nofun⟩
  | .other, Ts, s, n, _ => by
    rw [shapes, traverseShapeNodes]
    exact .nil s M n

theorem outcome_belowChildren (hM : M.length = inlined.1 + 1) : ∀ (nodes : List (VrmlNode K))
    (Ts : List (Matrix44 K)) (s : Listing K) {n : ℤ}, 0 < n →
      Outcome files T ((shapesChildren Ts nodes).map (.below inlined url)) s M n
        (traverseChildren files nodes (T * Ts.prod) url (s.traversal M) n)
  | [], Ts, s, n, _ => by
    rw [shapesChildren, traverseChildren]
    exact .nil s M n
  | node :: nodes, Ts, s, n, hn => by
    rw [shapesChildren, traverseChildren, List.map_append]
    exact (outcome_below hM node Ts s hn).andThen fun t ↦
      outcome_belowChildren hM nodes Ts t hn

theorem outcome_belowChoice (hM : M.length = inlined.1 + 1) : ∀ (nodes : List (VrmlNode K))
    (i : ℕ) (Ts : List (Matrix44 K)) (s : Listing K) {n : ℤ}, 0 < n →
      Outcome files T ((shapesChoice Ts nodes i).map (.below inlined url)) s M n
        (traverseChoice files nodes i (T * Ts.prod) url (s.traversal M) n)
  | [], i, Ts, s, n, _ => by
    rw [shapesChoice, traverseChoice]
    exact .nil s M n
  | node :: _, 0, Ts, s, n, hn => by
    rw [shapesChoice, traverseChoice]
    exact outcome_below hM node Ts s hn
  | _ :: nodes, i + 1, Ts, s, n, hn => by
    rw [shapesChoice, traverseChoice]
    exact outcome_belowChoice hM nodes i Ts s hn

end

mutual

/-- A call outside the Inline nodes visits the visible Shape nodes and leaves the transforms of the
Inline nodes. -/
theorem outcome_visible : ∀ (node : VrmlNode K) (Ts : List (Matrix44 K)) (s : Listing K)
    (M : List (Fin 12 → K)),
      Outcome files T (visible url M.length Ts node) s (M ++ (inlines Ts node).map (matrixOf T)) 0
        (traverseShapeNodes files node (T * Ts.prod) url (s.traversal M) 0)
  | .protoInstance none, Ts, s, M => by
    rw [visible, inlines, traverseShapeNodes, List.map_nil, List.append_nil]
    exact .nil s M 0
  | .protoInstance (some actualNode), Ts, s, M => by
    rw [visible, inlines, traverseShapeNodes]
    exact outcome_visible actualNode Ts s M
  | .group children, Ts, s, M => by
    rw [visible, inlines, traverseShapeNodes]
    exact outcome_visibleChildren children Ts s M
  | .transform Tlocal children, Ts, s, M => by
    rw [visible, inlines, traverseShapeNodes, transform_prod]
    exact outcome_visibleChildren children (Ts ++ [Tlocal]) s M
  | .inline urls children, Ts, s, M => by
    rw [visible, inlines, traverseShapeNodes, if_pos rfl]
    have hM : (M ++ [matrixOf T Ts]).length = M.length + 1 := List.length_append
    refine (outcome_belowChildren _ hM children Ts s (by omega)).leave le_rfl fun o ho ↦ ?_
    obtain ⟨shape, -, rfl⟩ := List.mem_map.1 ho
    nofun
  | .switch whichChoice children, Ts, s, M => by
    rw [visible, inlines, traverseShapeNodes]
    split_ifs
    · exact outcome_visibleChoice children _ Ts s M
    · rw [List.map_nil, List.append_nil]
      exact .nil s M 0
  | .shape address, Ts, s, M => by
    rw [visible, inlines, traverseShapeNodes, List.map_nil, List.append_nil]
    exact .shape (visitShape_eq (o := ⟨Ts, address, url, none⟩) files rfl)
      ⟨fun _ ↦ rfl, fun _ ↦ rfl⟩
  | .other, Ts, s, M => by
    rw [visible, inlines, traverseShapeNodes, List.map_nil, List.append_nil]
    exact .nil s M 0

theorem outcome_visibleChildren : ∀ (nodes : List (VrmlNode K)) (Ts : List (Matrix44 K))
    (s : Listing K) (M : List (Fin 12 → K)),
      Outcome files T (visibleChildren url M.length Ts nodes) s
        (M ++ (inlinesChildren Ts nodes).map (matrixOf T)) 0
        (traverseChildren files nodes (T * Ts.prod) url (s.traversal M) 0)
  | [], Ts, s, M => by
    rw [visibleChildren, inlinesChildren, traverseChildren, List.map_nil, List.append_nil]
    exact .nil s M 0
  | node :: nodes, Ts, s, M => by
    rw [visibleChildren, inlinesChildren, traverseChildren, List.map_append, ← List.append_assoc]
    refine (outcome_visible node Ts s M).andThen fun t ↦ ?_
    have hlength : (M ++ (inlines Ts node).map (matrixOf T)).length =
        M.length + (inlines Ts node).length := by
      rw [List.length_append, List.length_map]
    rw [← hlength]
    exact outcome_visibleChildren nodes Ts t _

theorem outcome_visibleChoice : ∀ (nodes : List (VrmlNode K)) (i : ℕ) (Ts : List (Matrix44 K))
    (s : Listing K) (M : List (Fin 12 → K)),
      Outcome files T (visibleChoice url M.length Ts nodes i) s
        (M ++ (inlinesChoice Ts nodes i).map (matrixOf T)) 0
        (traverseChoice files nodes i (T * Ts.prod) url (s.traversal M) 0)
  | [], i, Ts, s, M => by
    rw [visibleChoice, inlinesChoice, traverseChoice, List.map_nil, List.append_nil]
    exact .nil s M 0
  | node :: _, 0, Ts, s, M => by
    rw [visibleChoice, inlinesChoice, traverseChoice]
    exact outcome_visible node Ts s M
  | _ :: nodes, i + 1, Ts, s, M => by
    rw [visibleChoice, inlinesChoice, traverseChoice]
    exact outcome_visibleChoice nodes i Ts s M

end

end Below

variable (files T) in
/-- A call from the top of a scene graph. -/
theorem outcome_traverseShapeNodes (url : String) (node : VrmlNode K) (s : Traversal K) :
    Outcome files T (visible url s.inlinedShapeM.length [] node) (listingOf s)
      (s.inlinedShapeM ++ (inlines [] node).map (matrixOf T)) 0
      (traverseShapeNodes files node T url s 0) := by
  have h := @outcome_visible K _ files T url node [] (listingOf s) s.inlinedShapeM
  rwa [List.prod_nil, mul_one] at h

end Visits

end OpenHRP.InlinedShapes
