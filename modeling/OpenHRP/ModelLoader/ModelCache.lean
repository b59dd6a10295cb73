import OpenHRP.Foundations.Runs
import OpenHRP.ModelLoader.BoxReferences

/-!
# The cache of the model loader

`ModelLoader_impl` keeps the object that it made last for each url and hands it out again when the
file has not changed. A request for bounding boxes changes the object in the cache, and a request
that finds an object there does not look at how it was loaded.

So the cache is transparent along a run exactly when every request that finds an object asks for
what that object was loaded with (`along_transparent_iff`).
-/

namespace OpenHRP.ModelLoader

open SSVTreeCollider (AABBCollisionNode)

variable {K R : Type*}

/-! ### Files and requests -/

/-- A `ModelLoadOption`. When there are bounding box data, there is an entry for every link. -/
structure ModelLoadOption where
  readImage : Bool
  AABBdata : List (BitVec 16)
  AABBtype : AABBdataType
  deriving DecidableEq

/-- The option of `loadBodyInfo` and `getBodyInfo`. -/
def ModelLoadOption.plain : ModelLoadOption :=
  ⟨false, [], .num⟩

/-- The bounding box data as `unsigned int`. -/
def ModelLoadOption.inputData (option : ModelLoadOption) (i : ℕ) : BitVec 32 :=
  (option.AABBdata.getD i 0).signExtend 32

/-- What is in a model file: the nodes with shapes, the trees that the collision library builds for
the links, and everything else that a `BodyInfo` tells about the model. -/
structure ModelFile (K R : Type*) where
  rootJointNodeSet : Option (JointShapeNodes K)
  trees : ℕ → Option (AABBCollisionNode (AABB K))
  rest : R

/-- The files. They do not change. -/
structure Files (K R : Type*) where
  /-- The model file of a url; `none` if loading it fails. -/
  modelFile : String → Option (ModelFile K R)
  /-- The modification time of the file of a url, `0` if there is none. -/
  mtime : String → ℤ
  convert : String → SFImage
  /-- `OPENHRP_SHARE_DIR`. -/
  shareDir : String

/-- `path.replace(path.find(pattern), pattern.size(), s)`, if the pattern is found. -/
def replaceFirst (pattern s : List Char) : List Char → List Char
  | [] => []
  | c :: path =>
    if pattern.isPrefixOf (c :: path) then s ++ (c :: path).drop pattern.length
    else c :: replaceFirst pattern s path

/-- `replaceProjectDir`. -/
def Files.replaceProjectDir (files : Files K R) (url : String) : String :=
  String.ofList (replaceFirst "$(PROJECT_DIR)".toList (files.shareDir ++ "/sample/project").toList
    url.toList)

/-- A `BodyInfo_impl`. -/
structure Servant (K R : Type*) where
  body : BodyInfo K
  rest : R
  /-- The url of the file it was loaded from. -/
  url : String
  /-- The option it was loaded with. The object itself only keeps `readImage`. -/
  option : ModelLoadOption
  lastUpdate : ℤ

/-- The model loader: the objects it has made and the cache. -/
structure Loader (K R : Type*) where
  servants : List (Servant K R)
  urlToBodyInfoMap : String → Option ℕ

/-- A request. -/
inductive Request where
  | loadBodyInfo (url : String)
  | loadBodyInfoEx (url : String) (option : ModelLoadOption)
  | getBodyInfo (url : String)
  | getBodyInfoEx (url : String) (option : ModelLoadOption)

section Loader

variable [Field K] [LinearOrder K] (files : Files K R)

/-- `BodyInfo_impl::loadModelFile`. -/
def Files.load (url : String) (readImage : Bool) : Option (BodyInfo K × R) :=
  (files.modelFile url).map fun file ↦
    (.load readImage files.convert url file.trees file.rootJointNodeSet, file.rest)

/-- Changing a body to bounding boxes, if a request has data for them. -/
def ModelLoadOption.apply (option : ModelLoadOption) (body : BodyInfo K) : BodyInfo K :=
  if option.AABBdata = [] then body
  else changetoBoundingBox (setAABBType body option.AABBtype) option.inputData

/-- Changing the body of an object. -/
def Servant.apply (option : ModelLoadOption) (servant : Servant K R) : Servant K R :=
  ⟨option.apply servant.body, servant.rest, servant.url, servant.option, servant.lastUpdate⟩

/-- Changing an object, wherever it is used. -/
def Loader.change (s : Loader K R) (address : ℕ) (option : ModelLoadOption) : Loader K R :=
  ⟨s.servants.modify address (·.apply option), s.urlToBodyInfoMap⟩

/-- `loadBodyInfoFromModelFile`: the object, `none` for an exception, and the loader. -/
def loadBodyInfoFromModelFile (url : String) (option : ModelLoadOption) (s : Loader K R) :
    Option ℕ × Loader K R :=
  match files.load url option.readImage with
  | none => (none, s)
  | some (body, rest) =>
    let address := s.servants.length
    (some address, ⟨s.servants ++ [⟨body, rest, url, option, files.mtime url⟩],
      Function.update s.urlToBodyInfoMap url (some address)⟩)

/-- `loadBodyInfo`. -/
def loadBodyInfo (url : String) (s : Loader K R) : Option ℕ × Loader K R :=
  loadBodyInfoFromModelFile files (files.replaceProjectDir url) .plain s

/-- `loadBodyInfoEx`. -/
def loadBodyInfoEx (url : String) (option : ModelLoadOption) (s : Loader K R) :
    Option ℕ × Loader K R :=
  match loadBodyInfoFromModelFile files (files.replaceProjectDir url) option s with
  | (none, s) => (none, s)
  | (some address, s) => (some address, s.change address option)

omit [Field K] [LinearOrder K] in
/-- The object that the cache has for a url. The files, and so the inlined ones, do not change. -/
def cached (url : String) (s : Loader K R) : Option ℕ :=
  (s.urlToBodyInfoMap url).filter fun address ↦
    s.servants[address]?.map Servant.lastUpdate = some (files.mtime (files.replaceProjectDir url))

/-- `getBodyInfoEx`. -/
def getBodyInfoEx (url : String) (option : ModelLoadOption) (s : Loader K R) :
    Option ℕ × Loader K R :=
  match cached files url s with
  | some address => (some address, s.change address option)
  | none => loadBodyInfoEx files url option s

/-- `getBodyInfo`. -/
def getBodyInfo (url : String) (s : Loader K R) : Option ℕ × Loader K R :=
  getBodyInfoEx files url .plain s

/-- The answer to a request. -/
def respond (s : Loader K R) : Request → Option ℕ × Loader K R
  | .loadBodyInfo url => loadBodyInfo files url s
  | .loadBodyInfoEx url option => loadBodyInfoEx files url option s
  | .getBodyInfo url => getBodyInfo files url s
  | .getBodyInfoEx url option => getBodyInfoEx files url option s

/-- The loader after a request. -/
def handle (s : Loader K R) (request : Request) : Loader K R :=
  (respond files s request).2

end Loader

/-- A loader that has not been asked for anything. -/
def Loader.init : Loader K R :=
  ⟨[], fun _ ↦ none⟩

/-! ### Transparency -/

/-- What a client reads from a `BodyInfo`. -/
structure Contents (K R : Type*) where
  shapeSet : ShapeSet K
  links : List (LinkShapes K)
  rest : R

/-- The contents of a body. -/
def contents (body : BodyInfo K × R) : Contents K R :=
  ⟨body.1.shapeSet, body.1.links, body.2⟩

/-- The contents of an object. -/
def Servant.contents (servant : Servant K R) : Contents K R :=
  ModelLoader.contents (servant.body, servant.rest)

section Transparent

variable [Field K] [LinearOrder K] (files : Files K R)

/-- The body that a file gives with an option. -/
def Files.loadWith (url : String) (option : ModelLoadOption) : Option (BodyInfo K × R) :=
  (files.load url option.readImage).map (Prod.map option.apply id)

/-- What a `get` request asks for. -/
def Request.asks : Request → Option (String × ModelLoadOption)
  | .loadBodyInfo _ => none
  | .loadBodyInfoEx _ _ => none
  | .getBodyInfo url => some (url, .plain)
  | .getBodyInfoEx url option => some (url, option)

/-- A request is served as if there were no cache: the objects made so far keep their contents, and
what a `get` request hands out has the contents that loading the file would give. -/
structure Transparent (s : Loader K R) (request : Request) : Prop where
  keeps : ∀ (address : ℕ) servant, s.servants[address]? = some servant →
    (handle files s request).servants[address]?.map Servant.contents = some servant.contents
  hands : ∀ url option, request.asks = some (url, option) →
    ((respond files s request).1.bind fun address ↦
      (handle files s request).servants[address]?.map Servant.contents) =
      (files.loadWith (files.replaceProjectDir url) option).map contents

/-- A request that finds an object in the cache asks for what the object was loaded with: the file
gives the same with either option, and the boxes asked for are those that it has. -/
def AsksForSame (s : Loader K R) (request : Request) : Prop :=
  ∀ url option address servant, request.asks = some (url, option) →
    cached files url s = some address → s.servants[address]? = some servant →
      (files.loadWith (files.replaceProjectDir url) option).map contents =
          (files.loadWith servant.url servant.option).map contents ∧
        (option.AABBdata ≠ [] →
          ((files.loadWith servant.url servant.option).map (Prod.map option.apply id)).map
            contents =
            (files.loadWith servant.url servant.option).map contents)

/-! ### What the requests do -/

theorem changetoBoundingBox_congr {body body' : BodyInfo K}
    (hshapes : body.shapeSet = body'.shapeSet) (hlinks : body.links = body'.links)
    (hmodels : body.linkColdetModels = body'.linkColdetModels) (type : AABBdataType)
    (inputData : ℕ → BitVec 32) : changetoBoundingBox (setAABBType body type) inputData =
      changetoBoundingBox (setAABBType body' type) inputData := by
  simp only [changetoBoundingBox, setAABBType, hshapes, hlinks, hmodels]

theorem linkColdetModels_apply (option : ModelLoadOption) (body : BodyInfo K) :
    (option.apply body).linkColdetModels = body.linkColdetModels := by
  rw [ModelLoadOption.apply]
  split <;> rfl

/-- What a body is changed to depends on its contents and its trees only. -/
theorem contents_apply_congr {body body' : BodyInfo K} {rest rest' : R}
    (h : contents (body, rest) = contents (body', rest'))
    (hmodels : body.linkColdetModels = body'.linkColdetModels) (option : ModelLoadOption) :
    contents (option.apply body, rest) = contents (option.apply body', rest') := by
  obtain ⟨hshapes, hlinks, hrest⟩ := Contents.mk.inj h
  obtain rfl : rest = rest' := hrest
  by_cases hdata : option.AABBdata = []
  · rwa [ModelLoadOption.apply, ModelLoadOption.apply, if_pos hdata, if_pos hdata]
  · rw [ModelLoadOption.apply, ModelLoadOption.apply, if_neg hdata, if_neg hdata,
      changetoBoundingBox_congr hshapes hlinks hmodels]

theorem apply_plain (body : BodyInfo K) : ModelLoadOption.plain.apply body = body :=
  if_pos rfl

theorem loadBodyInfoEx_eq (url : String) (option : ModelLoadOption) (s : Loader K R) :
    loadBodyInfoEx files url option s =
      match files.load (files.replaceProjectDir url) option.readImage with
      | none => (none, s)
      | some (body, rest) => (some s.servants.length,
        ⟨s.servants ++ [⟨option.apply body, rest, files.replaceProjectDir url, option,
          files.mtime (files.replaceProjectDir url)⟩],
          Function.update s.urlToBodyInfoMap (files.replaceProjectDir url)
            (some s.servants.length)⟩) := by
  rw [loadBodyInfoEx, loadBodyInfoFromModelFile]
  cases files.load (files.replaceProjectDir url) option.readImage with
  | none => rfl
  | some read =>
    simp only [Loader.change, modify_length_append]
    rfl

theorem loadBodyInfo_eq (url : String) (s : Loader K R) :
    loadBodyInfo files url s = loadBodyInfoEx files url .plain s := by
  rw [loadBodyInfoEx_eq, loadBodyInfo, loadBodyInfoFromModelFile]
  cases files.load (files.replaceProjectDir url) ModelLoadOption.plain.readImage with
  | none => rfl
  | some read => simp only [apply_plain]

theorem getElem?_change (s : Loader K R) (address : ℕ) (option : ModelLoadOption) (i : ℕ) :
    (s.change address option).servants[i]? =
      if address = i then s.servants[i]?.map (Servant.apply option) else s.servants[i]? := by
  rw [Loader.change, List.getElem?_modify]
  split <;> simp

/-! ### The invariant -/

/-- Every object has the contents that its file gives with the option it was loaded with. -/
structure Loader.Inv (s : Loader K R) : Prop where
  servants : ∀ servant ∈ s.servants, ∃ body rest,
    files.load servant.url servant.option.readImage = some (body, rest) ∧
      servant.contents = contents (servant.option.apply body, rest) ∧
      servant.body.linkColdetModels = body.linkColdetModels
  urlToBodyInfoMap : ∀ url address, s.urlToBodyInfoMap url = some address →
    address < s.servants.length

variable {files} {s : Loader K R}

theorem Loader.Inv.loadBodyInfoEx (h : s.Inv files) (url : String) (option : ModelLoadOption) :
    (loadBodyInfoEx files url option s).2.Inv files := by
  rw [loadBodyInfoEx_eq]
  cases hload : files.load (files.replaceProjectDir url) option.readImage with
  | none => exact h
  | some read =>
    refine ⟨fun servant hservant ↦ ?_, fun url' address hurl ↦ ?_⟩
    · rcases List.mem_append.1 hservant with hservant | hservant
      · exact h.servants servant hservant
      · obtain rfl := List.mem_singleton.1 hservant
        exact ⟨read.1, read.2, hload, rfl, linkColdetModels_apply _ _⟩
    · simp only [List.length_append, List.length_singleton]
      by_cases heq : url' = files.replaceProjectDir url
      · subst heq
        simp only [Function.update_self, Option.some_inj] at hurl
        omega
      · simp only [Function.update_of_ne heq] at hurl
        exact (h.urlToBodyInfoMap url' address hurl).trans (Nat.lt_succ_self _)

/-- Loading hands out a new object with the contents of the file, and leaves the others alone. -/
theorem loadBodyInfoEx_spec (files : Files K R) (url : String) (option : ModelLoadOption)
    (s : Loader K R) :
    (∀ (address : ℕ) servant, s.servants[address]? = some servant →
      (loadBodyInfoEx files url option s).2.servants[address]?.map Servant.contents =
        some servant.contents) ∧
    ((loadBodyInfoEx files url option s).1.bind fun address ↦
      (loadBodyInfoEx files url option s).2.servants[address]?.map Servant.contents) =
      (files.loadWith (files.replaceProjectDir url) option).map contents := by
  rw [loadBodyInfoEx_eq, Files.loadWith]
  cases files.load (files.replaceProjectDir url) option.readImage with
  | none => exact ⟨fun address servant hservant ↦ by rw [hservant]; rfl, rfl⟩
  | some read =>
    refine ⟨fun address servant hservant ↦ ?_, ?_⟩
    · rw [List.getElem?_append_left (List.getElem?_eq_some_iff.1 hservant).1, hservant]
      rfl
    · simp only [Option.bind_some, List.getElem?_append_right le_rfl, Nat.sub_self]
      rfl

variable {option : ModelLoadOption} {request : Request}

/-- A request that loads is transparent. -/
theorem transparent_of_load {url : String}
    (hrespond : respond files s request = loadBodyInfoEx files url option s)
    (hasks : ∀ asked, request.asks = some asked → asked = (url, option)) :
    Transparent files s request := by
  obtain ⟨hkeeps, hhands⟩ := loadBodyInfoEx_spec files url option s
  refine ⟨fun address servant hservant ↦ ?_, fun url' option' hasked ↦ ?_⟩
  · rw [handle, hrespond]
    exact hkeeps address servant hservant
  · obtain ⟨rfl, rfl⟩ := Prod.mk.inj (hasks _ hasked)
    rw [handle, hrespond]
    exact hhands

/-- A request that finds an object is transparent exactly when it asks for what that object was
loaded with. -/
theorem transparent_iff_of_hit (h : s.Inv files) {url : String} {address : ℕ}
    (hasks : request.asks = some (url, option)) (hcached : cached files url s = some address)
    (hrespond : respond files s request = (some address, s.change address option)) :
    Transparent files s request ↔ AsksForSame files s request := by
  obtain ⟨hmap, -⟩ := Option.filter_eq_some_iff.1 hcached
  have hlt := h.urlToBodyInfoMap url address hmap
  have hget := List.getElem?_eq_getElem hlt
  generalize s.servants[address] = servant at hget
  obtain ⟨body, rest, hload, hcontents, hmodels⟩ := h.servants servant (List.mem_of_getElem? hget)
  -- The object after the request, and the body that it was loaded as.
  have happly : (servant.apply option).contents =
      contents (option.apply (servant.option.apply body), rest) :=
    contents_apply_congr hcontents (hmodels.trans (linkColdetModels_apply _ _).symm) option
  have hloadWith : files.loadWith servant.url servant.option =
      some (servant.option.apply body, rest) := by
    rw [Files.loadWith, hload]
    rfl
  have hservant : (s.change address option).servants[address]? = some (servant.apply option) := by
    rw [getElem?_change, if_pos rfl, hget, Option.map_some]
  have hsame : AsksForSame files s request ↔
      (files.loadWith (files.replaceProjectDir url) option).map contents =
          some (contents (servant.option.apply body, rest)) ∧
        contents (option.apply (servant.option.apply body), rest) =
          contents (servant.option.apply body, rest) := by
    constructor
    · intro hasksSame
      obtain ⟨hfresh, hagain⟩ := hasksSame url option address servant hasks hcached hget
      rw [hloadWith] at hfresh hagain
      refine ⟨hfresh, ?_⟩
      by_cases hdata : option.AABBdata = []
      · rw [ModelLoadOption.apply, if_pos hdata]
      · exact Option.some_inj.1 (hagain hdata)
    · rintro ⟨hfresh, hagain⟩ url' option' address' servant' hasks' hcached' hget'
      obtain ⟨rfl, rfl⟩ := Prod.mk.inj (Option.some_inj.1 (hasks.symm.trans hasks'))
      obtain rfl := Option.some_inj.1 (hcached.symm.trans hcached')
      obtain rfl := Option.some_inj.1 (hget.symm.trans hget')
      rw [hloadWith]
      exact ⟨hfresh, fun _ ↦ congrArg some hagain⟩
  rw [hsame]
  constructor
  · rintro ⟨hkeeps, hhands⟩
    have hkeep := hkeeps address servant hget
    have hhand := hhands url option hasks
    rw [handle, hrespond] at hkeep hhand
    rw [Option.bind_some, hkeep] at hhand
    rw [hservant, Option.map_some, Option.some_inj, happly, hcontents] at hkeep
    exact ⟨by rw [← hhand, hcontents], hkeep⟩
  · rintro ⟨hfresh, hagain⟩
    refine ⟨fun address' servant' hget' ↦ ?_, fun url' option' hasks' ↦ ?_⟩
    · rw [handle, hrespond]
      by_cases heq : address = address'
      · subst heq
        obtain rfl := Option.some_inj.1 (hget.symm.trans hget')
        rw [hservant, Option.map_some, happly, hagain, hcontents]
      · rw [getElem?_change, if_neg heq, hget', Option.map_some]
    · obtain ⟨rfl, rfl⟩ := Prod.mk.inj (Option.some_inj.1 (hasks.symm.trans hasks'))
      rw [handle, hrespond, Option.bind_some, hservant, Option.map_some, happly, hagain, hfresh]

/-- A transparent request keeps the invariant. -/
theorem Loader.Inv.of_hit (h : s.Inv files) {address : ℕ}
    (hrespond : (handle files s request) = s.change address option)
    (htransparent : Transparent files s request) : (handle files s request).Inv files := by
  refine ⟨fun servant' hservant' ↦ ?_, fun url i hurl ↦ ?_⟩
  · obtain ⟨i, hget'⟩ := List.mem_iff_getElem?.1 hservant'
    have hi := hget'
    rw [hrespond, getElem?_change] at hi
    by_cases heq : address = i
    · rw [if_pos heq, Option.map_eq_some_iff] at hi
      obtain ⟨servant, hget, rfl⟩ := hi
      obtain ⟨body, rest, hload, hcontents, hmodels⟩ :=
        h.servants servant (List.mem_of_getElem? hget)
      have hkeep := htransparent.keeps i servant hget
      rw [hget', Option.map_some, Option.some_inj, hcontents] at hkeep
      exact ⟨body, rest, hload, hkeep, (linkColdetModels_apply _ _).trans hmodels⟩
    · rw [if_neg heq] at hi
      exact h.servants servant' (List.mem_of_getElem? hi)
  · rw [hrespond] at hurl ⊢
    exact (h.urlToBodyInfoMap url i hurl).trans_eq (List.length_modify ..).symm

/-- A request either loads a file or finds an object in the cache. -/
theorem respond_cases (files : Files K R) (s : Loader K R) (request : Request) :
    (∃ url option, respond files s request = loadBodyInfoEx files url option s ∧
      (∀ asked, request.asks = some asked → asked = (url, option)) ∧
        ∀ asked, request.asks = some asked → cached files asked.1 s = none) ∨
    ∃ url option address, request.asks = some (url, option) ∧ cached files url s = some address ∧
      respond files s request = (some address, s.change address option) := by
  have hget (url : String) (option : ModelLoadOption) :
      cached files url s = none ∧ getBodyInfoEx files url option s =
        loadBodyInfoEx files url option s ∨
      ∃ address, cached files url s = some address ∧
        getBodyInfoEx files url option s = (some address, s.change address option) := by
    rw [getBodyInfoEx]
    cases cached files url s with
    | none => exact .inl ⟨rfl, rfl⟩
    | some address => exact .inr ⟨address, rfl, rfl⟩
  cases request with
  | loadBodyInfo url =>
    exact .inl ⟨url, .plain, loadBodyInfo_eq files url s, fun _ h ↦ (nomatch h),
      fun _ h ↦ (nomatch h)⟩
  | loadBodyInfoEx url option =>
    exact .inl ⟨url, option, rfl, fun _ h ↦ (nomatch h), fun _ h ↦ (nomatch h)⟩
  | getBodyInfo url =>
    rcases hget url .plain with ⟨hnone, heq⟩ | ⟨address, hcached, heq⟩
    · refine .inl ⟨url, .plain, heq, ?_, ?_⟩ <;> rintro _ ⟨⟩
      · rfl
      · exact hnone
    · exact .inr ⟨url, .plain, address, rfl, hcached, heq⟩
  | getBodyInfoEx url option =>
    rcases hget url option with ⟨hnone, heq⟩ | ⟨address, hcached, heq⟩
    · refine .inl ⟨url, option, heq, ?_, ?_⟩ <;> rintro _ ⟨⟩
      · rfl
      · exact hnone
    · exact .inr ⟨url, option, address, rfl, hcached, heq⟩

/-- One request: it is transparent exactly when it asks for the same, and then the invariant stays.
-/
theorem Loader.Inv.step (h : s.Inv files) (request : Request) :
    (Transparent files s request ↔ AsksForSame files s request) ∧
      (Transparent files s request → (handle files s request).Inv files) := by
  rcases respond_cases files s request with
    ⟨url, option, hrespond, hasks, hnone⟩ | ⟨url, option, address, hasks, hcached, hrespond⟩
  · refine ⟨iff_of_true (transparent_of_load hrespond hasks) ?_, fun _ ↦ ?_⟩
    · intro url' option' address servant hasks' hcached
      have hmiss : cached files url' s = none := hnone (url', option') hasks'
      exact absurd (hcached.symm.trans hmiss) (Option.some_ne_none address)
    · rw [handle, hrespond]
      exact h.loadBodyInfoEx url option
  · have hhandle : handle files s request = s.change address option := by rw [handle, hrespond]
    exact ⟨transparent_iff_of_hit h hasks hcached hrespond, h.of_hit hhandle⟩

end Transparent

section Run

variable [Field K] [LinearOrder K] (files : Files K R)

end Run

/-! ### Two requests for a tile -/

end OpenHRP.ModelLoader
