import OpenHRP.Foundations.Runs
import Mathlib.Algebra.Ring.Int.Defs
import Mathlib.Data.List.ProdSigma
import Mathlib.Data.Prod.Lex
import Mathlib.Data.String.Basic

/-!
# Collision check pairs of the dynamics simulator

A `DynamicsSimulator` keeps the pairs of links it checks for collisions in three tables: the world
numbers the pairs (`getIndexOfLinkPairs`), the constraint solver stores a pair at its number
(`collisionCheckLinkPairs`), and the collision detector, a server of its own that knows characters
and links by their names, keeps a list that only grows (`coldetModelPairs`). The solver takes the
contact points of pair `i` from entry `i` of what the detector returns.

The entries match as long as every pair is registered in the order it has in the detector's list
and no pair that is checked for intersections only stands in a new pair's place (`Heeds`).
-/

namespace OpenHRP.Simulator

variable {K : Type*}

/-! ### Characters -/

/-- A `LinkInfo`: what `createBody` and `ColdetBody` read of it to arrange and name the links. -/
structure LinkInfo where
  name : String
  parentIndex : ℤ
  childIndices : List ℕ

/-- A `Link*` of a body of the world. A link is identified by its body and its place in the
traversal of the body; `info` is the place of the `LinkInfo` it was created from. -/
structure Link where
  body : ℕ
  index : ℕ
  name : String
  info : ℕ

/-- `createLink`: the names and `LinkInfo` indices of the link and of all below it, in the order of
the traversal. `none` when a child index is out of range or the recursion does not end. -/
def createLink (linkInfoSeq : List LinkInfo) : ℕ → ℕ → Option (List (String × ℕ))
  | 0, _ => none
  | fuel + 1, index =>
    match linkInfoSeq[index]? with
    | none => none
    | some linkInfo =>
      (linkInfo.childIndices.mapM (createLink linkInfoSeq fuel)).map fun children ↦
        (linkInfo.name, index) :: children.flatten

/-- The root of a `BodyInfo`: the only link without a parent. -/
def rootIndex (linkInfoSeq : List LinkInfo) : Option ℕ :=
  match linkInfoSeq.zipIdx.filter fun p ↦ p.1.parentIndex < 0 with
  | [p] => some p.2
  | _ => none

/-- `loadBodyFromBodyInfo`: the links of the new body, which is to be body number `body` of the
world, in the order of `linkTraverse`. A chain of links in a tree is no longer than its list. -/
def loadBodyFromBodyInfo (body : ℕ) (linkInfoSeq : List LinkInfo) : Option (List Link) :=
  ((rootIndex linkInfoSeq).bind (createLink linkInfoSeq linkInfoSeq.length)).map fun links ↦
    links.mapIdx fun index p ↦ ⟨body, index, p.1, p.2⟩

/-- `Body::link(name)`: the map from names keeps the last link of a name. -/
def linkOfName (links : List Link) (name : String) : Option Link :=
  (links.filter fun link ↦ link.name = name).getLast?

/-! ### The world's table -/

/-- A `WorldBase`. A later entry of one of its maps is in front of an earlier one. -/
structure World where
  bodyInfoArray : List (List Link)
  nameToBodyIndexMap : List (String × ℕ)
  linkPairKeyToIndexMap : List ((Link × Link) × ℕ)
  numRegisteredLinkPairs : ℕ

namespace World

def bodyIndex (w : World) (name : String) : Option ℕ :=
  w.nameToBodyIndexMap.lookup name

def addBody (w : World) (name : String) (links : List Link) : World :=
  { w with
    nameToBodyIndexMap :=
      if name = "" then w.nameToBodyIndexMap
      else (name, w.bodyInfoArray.length) :: w.nameToBodyIndexMap
    bodyInfoArray := w.bodyInfoArray ++ [links] }

variable [LinearOrder Link]

/-- `LinkPairKey`: the two links in the order of their addresses. -/
def linkPairKey (link1 link2 : Link) : Link × Link :=
  if link1 < link2 then (link1, link2) else (link2, link1)

/-- The entry of the map for a pair. -/
def find (w : World) (link1 link2 : Link) : Option ℕ :=
  w.linkPairKeyToIndexMap.lookup (linkPairKey link1 link2)

/-- The branch of `getIndexOfLinkPairs` for a pair that is not in the map. -/
def insert (w : World) (link1 link2 : Link) : World :=
  { w with
    linkPairKeyToIndexMap :=
      (linkPairKey link1 link2, w.numRegisteredLinkPairs) :: w.linkPairKeyToIndexMap
    numRegisteredLinkPairs := w.numRegisteredLinkPairs + 1 }

/-- `getIndexOfLinkPairs`: the index of the pair and whether it was registered before. -/
def getIndexOfLinkPairs (w : World) (link1 link2 : Link) : World × Option ℕ × Bool :=
  if link1 = link2 then (w, none, false)
  else match w.find link1 link2 with
    | some index => (w, some index, true)
    | none => (w.insert link1 link2, some w.numRegisteredLinkPairs, false)

end World

/-! ### The solver's table -/

/-- The parameters of `registerCollisionCheckPair` that are passed on to the solver. -/
structure Contact (K : Type*) where
  staticFriction : K
  slipFriction : K
  culling_thresh : K
  restitution : K

/-- `CFSImpl::LinkPair`. -/
structure LinkPair (K : Type*) where
  isSameBodyPair : Bool
  bodyIndex0 : ℕ
  link0 : Link
  bodyIndex1 : ℕ
  link1 : Link
  index : ℕ
  isNonContactConstraint : Bool
  muStatic : K
  muDynamic : K
  culling_thresh : K
  restitution : K
  epsilon : K

/-- What `addCollisionCheckLinkPair` writes at the index of a pair. -/
def LinkPair.set (index bodyIndex1 : ℕ) (link1 : Link) (bodyIndex2 : ℕ) (link2 : Link)
    (contact : Contact K) (epsilon : K) : LinkPair K where
  isSameBodyPair := bodyIndex1 = bodyIndex2
  bodyIndex0 := bodyIndex1
  link0 := link1
  bodyIndex1 := bodyIndex2
  link1 := link2
  index := index
  isNonContactConstraint := false
  muStatic := contact.staticFriction
  muDynamic := contact.slipFriction
  culling_thresh := contact.culling_thresh
  restitution := contact.restitution
  epsilon := epsilon

/-- The array after `resize(index + 1)`, when it is shorter, and the assignment at `index`. -/
def store {α : Type*} (a : List (Option α)) (index : ℕ) (x : α) : List (Option α) :=
  (a ++ List.replicate (index + 1 - a.length) none).set index (some x)

theorem store_of_lt {α : Type*} {a : List (Option α)} {i : ℕ} (h : i < a.length) (x : α) :
    store a i x = a.set i (some x) := by
  rw [store, Nat.sub_eq_zero_of_le (by omega), List.replicate_zero, List.append_nil]

theorem store_length {α : Type*} (a : List (Option α)) (x : α) :
    store a a.length x = a ++ [some x] := by
  rw [store, Nat.add_sub_cancel_left]
  simp

/-! ### The detector's table -/

/-- A `ColdetModel`: the model that `ColdetBody` number `body` of the detector has of the `LinkInfo`
at `index`. -/
structure ColdetModel where
  body : ℕ
  index : ℕ
  name : String

/-- A `ColdetBody`. -/
structure ColdetBody where
  name : String
  linkColdetModels : List ColdetModel

/-- The map from names keeps the first model of a name. -/
def ColdetBody.linkColdetModel (b : ColdetBody) (linkName : String) : Option ColdetModel :=
  b.linkColdetModels.find? fun model ↦ model.name = linkName

/-- `ColdetModelPairEx`, with the names of its bodies in their place. -/
structure ColdetModelPairEx (K : Type*) where
  body0 : String
  model0 : ColdetModel
  body1 : String
  model1 : ColdetModel
  tolerance : K

/-- A pair of links as it is sent to the detector. -/
structure NamedPair (K : Type*) where
  charName1 : String
  linkName1 : String
  charName2 : String
  linkName2 : String
  tolerance : K

/-- `CollisionDetector_impl`, with the number of bodies it has made. -/
structure CollisionDetector (K : Type*) where
  numBodies : ℕ
  nameToColdetBodyMap : List (String × ColdetBody)
  coldetModelPairs : List (ColdetModelPairEx K)

/-- An entry of a `CollisionSequence`: the pair whose contact points it holds, and the names it
gives for that pair. -/
structure Collision (K : Type*) where
  coldetPair : ColdetModelPairEx K
  charName1 : String
  linkName1 : String
  charName2 : String
  linkName2 : String

namespace CollisionDetector

def registerCharacter (d : CollisionDetector K) (name : String) (bodyInfo : List LinkInfo) :
    CollisionDetector K :=
  { d with
    numBodies := d.numBodies + 1
    nameToColdetBodyMap :=
      (name, ⟨name, bodyInfo.mapIdx fun index linkInfo ↦ ⟨d.numBodies, index, linkInfo.name⟩⟩) ::
        d.nameToColdetBodyMap }

/-- The body and the model that `addCollisionPairSub` finds under two names. -/
def findModel (d : CollisionDetector K) (bodyName linkName : String) :
    Option (ColdetBody × ColdetModel) :=
  (d.nameToColdetBodyMap.lookup bodyName).bind fun b ↦
    (b.linkColdetModel linkName).map fun model ↦ (b, model)

/-- `addCollisionPairSub`: a pair with an unknown name is left out. -/
def addCollisionPair (d : CollisionDetector K) (linkPair : NamedPair K) : CollisionDetector K :=
  match d.findModel linkPair.charName1 linkPair.linkName1,
      d.findModel linkPair.charName2 linkPair.linkName2 with
  | some (body0, model0), some (body1, model1) =>
    { d with
      coldetModelPairs := d.coldetModelPairs ++
        [⟨body0.name, model0, body1.name, model1, linkPair.tolerance⟩] }
  | _, _ => d

theorem coldetModelPairs_prefix (d : CollisionDetector K) (linkPair : NamedPair K) :
    d.coldetModelPairs <+: (d.addCollisionPair linkPair).coldetModelPairs := by
  rw [CollisionDetector.addCollisionPair]
  split
  · exact List.prefix_append _ _
  · exact List.prefix_rfl

/-- `queryContactDeterminationForDefinedPairs`, with the contact points of an entry left to the
pair they are computed from. -/
def queryContactDeterminationForDefinedPairs (d : CollisionDetector K) : List (Collision K) :=
  d.coldetModelPairs.map fun coldetPair ↦
    { coldetPair := coldetPair
      charName1 := coldetPair.body0
      linkName1 := coldetPair.model0.name
      charName2 := coldetPair.body1
      linkName2 := coldetPair.model1.name }

end CollisionDetector

/-! ### The simulator -/

/-- The tables of a `DynamicsSimulator_impl`. -/
structure DynamicsSimulator (K : Type*) where
  world : World
  collisionCheckLinkPairs : List (Option (LinkPair K))
  collisionDetector : CollisionDetector K

/-- A simulator before any registration. -/
def DynamicsSimulator.init : DynamicsSimulator K where
  world := ⟨[], [], [], 0⟩
  collisionCheckLinkPairs := []
  collisionDetector := ⟨0, [], []⟩

/-- The links that a link name selects; the empty name selects all of them. -/
def selectLinks (links : List Link) (linkName : String) : List (Option Link) :=
  if linkName = "" then links.map some else [linkOfName links linkName]

/-- The pairs of two selections that the registration loops do not skip, in their order. -/
def selectPairs (links1 links2 : List (Option Link)) [DecidableEq Link] : List (Link × Link) :=
  (links1 ×ˢ links2).filterMap fun p ↦
    p.1.bind fun link1 ↦ p.2.bind fun link2 ↦
      if link1 = link2 then none else some (link1, link2)

namespace DynamicsSimulator

def registerCharacter (s : DynamicsSimulator K) (name : String) (bodyInfo : List LinkInfo) :
    DynamicsSimulator K :=
  match loadBodyFromBodyInfo s.world.bodyInfoArray.length bodyInfo with
  | none => s
  | some links =>
    { s with
      world := s.world.addBody name links
      collisionDetector := s.collisionDetector.registerCharacter name bodyInfo }

/-- Two characters, each with its body index, and the links selected on them. -/
def select [DecidableEq Link] (s : DynamicsSimulator K)
    (charName1 linkName1 charName2 linkName2 : String) : Option (ℕ × ℕ × List (Link × Link)) :=
  match s.world.bodyIndex charName1, s.world.bodyIndex charName2 with
  | some bodyIndex1, some bodyIndex2 =>
    let links1 := (s.world.bodyInfoArray[bodyIndex1]?).getD []
    let links2 := (s.world.bodyInfoArray[bodyIndex2]?).getD []
    some (bodyIndex1, bodyIndex2,
      selectPairs (selectLinks links1 linkName1) (selectLinks links2 linkName2))
  | _, _ => none

variable [LinearOrder Link]

/-- `addCollisionCheckLinkPair`, with its answer. -/
def addCollisionCheckLinkPair (s : DynamicsSimulator K) (bodyIndex1 : ℕ) (link1 : Link)
    (bodyIndex2 : ℕ) (link2 : Link) (contact : Contact K) (epsilon : K) :
    DynamicsSimulator K × Bool :=
  match s.world.getIndexOfLinkPairs link1 link2 with
  | (world, some index, isRegistered) =>
    (⟨world, store s.collisionCheckLinkPairs index
      (LinkPair.set index bodyIndex1 link1 bodyIndex2 link2 contact epsilon), s.collisionDetector⟩,
      !isRegistered)
  | (world, none, _) => (⟨world, s.collisionCheckLinkPairs, s.collisionDetector⟩, false)

/-- The message to the detector: the names of two links. -/
def addCollisionPair (s : DynamicsSimulator K) (charName1 : String) (link1 : Link)
    (charName2 : String) (link2 : Link) (tolerance : K) : DynamicsSimulator K :=
  { s with
    collisionDetector := s.collisionDetector.addCollisionPair
      ⟨charName1, link1.name, charName2, link2.name, tolerance⟩ }

variable [Zero K]

/-- The body of the loops of `registerCollisionCheckPair`. -/
def registerLinkPair (charName1 : String) (bodyIndex1 : ℕ) (charName2 : String) (bodyIndex2 : ℕ)
    (contact : Contact K) (s : DynamicsSimulator K) (p : Link × Link) : DynamicsSimulator K :=
  match s.addCollisionCheckLinkPair bodyIndex1 p.1 bodyIndex2 p.2 contact 0 with
  | (s, true) => s.addCollisionPair charName1 p.1 charName2 p.2 0
  | (s, false) => s

def registerCollisionCheckPair (s : DynamicsSimulator K)
    (charName1 linkName1 charName2 linkName2 : String) (contact : Contact K) :
    DynamicsSimulator K :=
  match s.select charName1 linkName1 charName2 linkName2 with
  | none => s
  | some (bodyIndex1, bodyIndex2, pairs) =>
    pairs.foldl (registerLinkPair charName1 bodyIndex1 charName2 bodyIndex2 contact) s

def registerIntersectionCheckPair (s : DynamicsSimulator K)
    (charName1 linkName1 charName2 linkName2 : String) (tolerance : K) : DynamicsSimulator K :=
  match s.select charName1 linkName1 charName2 linkName2 with
  | none => s
  | some (_, _, pairs) =>
    pairs.foldl (fun s p ↦ s.addCollisionPair charName1 p.1 charName2 p.2 tolerance) s

/-- `initSimulation`: the collisions that the detector returns. The initialisation of the world and
of the solver leaves the tables alone. -/
def initSimulation (s : DynamicsSimulator K) : List (Collision K) :=
  s.collisionDetector.queryContactDeterminationForDefinedPairs

end DynamicsSimulator

/-- A registration call. -/
inductive Call (K : Type*)
  | registerCharacter (name : String) (bodyInfo : List LinkInfo)
  | registerCollisionCheckPair (charName1 linkName1 charName2 linkName2 : String)
    (contact : Contact K)
  | registerIntersectionCheckPair (charName1 linkName1 charName2 linkName2 : String)
    (tolerance : K)

/-! ### Agreement of the tables -/

/-- The model was made from the `LinkInfo` that the link was created from. -/
def ColdetModel.IsOf (model : ColdetModel) (link : Link) : Prop :=
  model.body = link.body ∧ model.index = link.info

instance (model : ColdetModel) (link : Link) : Decidable (model.IsOf link) :=
  inferInstanceAs (Decidable (_ ∧ _))

/-- The pair of the detector is for these two links, in this order. -/
def ColdetModelPairEx.IsOf (coldetPair : ColdetModelPairEx K) (link1 link2 : Link) : Prop :=
  coldetPair.model0.IsOf link1 ∧ coldetPair.model1.IsOf link2

instance (coldetPair : ColdetModelPairEx K) (link1 link2 : Link) :
    Decidable (coldetPair.IsOf link1 link2) :=
  inferInstanceAs (Decidable (_ ∧ _))

/-- Every pair of the solver finds the collisions of its own links, in its own order, at its index
in what the detector returns. -/
def Agrees (s : DynamicsSimulator K) : Prop :=
  ∀ i < s.collisionCheckLinkPairs.length, ∃ linkPair collision,
    s.collisionCheckLinkPairs[i]? = some (some linkPair) ∧
    s.initSimulation[i]? = some collision ∧
    collision.coldetPair.IsOf linkPair.link0 linkPair.link1

/-- The detector's list has an entry for the two links, in this order, at index `i`. -/
def EntryAt (d : CollisionDetector K) (i : ℕ) (link1 link2 : Link) : Prop :=
  ∃ coldetPair, d.coldetModelPairs[i]? = some coldetPair ∧ coldetPair.IsOf link1 link2

instance (d : CollisionDetector K) (i : ℕ) (link1 link2 : Link) :
    Decidable (EntryAt d i link1 link2) :=
  inferInstanceAs (Decidable (∃ c ∈ d.coldetModelPairs[i]?, c.IsOf link1 link2))

theorem EntryAt.addCollisionPair {d : CollisionDetector K} {i : ℕ} {link1 link2 : Link}
    (h : EntryAt d i link1 link2) (linkPair : NamedPair K) :
    EntryAt (d.addCollisionPair linkPair) i link1 link2 := by
  obtain ⟨coldetPair, hget, hof⟩ := h
  obtain ⟨l, hl⟩ := d.coldetModelPairs_prefix linkPair
  refine ⟨coldetPair, ?_, hof⟩
  rw [← hl, List.getElem?_append_left (List.getElem?_eq_some_iff.1 hget).1, hget]

/-- What the detector finds under the names of a character and of a link is the model of that
link. -/
def Finds (d : CollisionDetector K) (charName : String) (link : Link) : Prop :=
  ∃ found, d.findModel charName link.name = some found ∧ found.2.IsOf link

instance (d : CollisionDetector K) (charName : String) (link : Link) :
    Decidable (Finds d charName link) :=
  inferInstanceAs (Decidable (∃ found ∈ d.findModel charName link.name, found.2.IsOf link))

/-- The place at or before the end of the list where a new pair is expected: the pair stands there
already, or it is put there. -/
theorem entryAt_addCollisionPair_iff {d : CollisionDetector K} {n : ℕ} {link1 link2 : Link}
    {charName1 charName2 : String} (tolerance : K) (hn : n ≤ d.coldetModelPairs.length) :
    EntryAt (d.addCollisionPair ⟨charName1, link1.name, charName2, link2.name, tolerance⟩) n
        link1 link2 ↔
      EntryAt d n link1 link2 ∨
        (d.coldetModelPairs.length = n ∧ Finds d charName1 link1 ∧ Finds d charName2 link2) := by
  rcases hn.lt_or_eq with hlt | heq
  · refine ⟨fun h ↦ .inl ?_, fun h ↦ (h.resolve_right fun h ↦ hlt.ne' h.1).addCollisionPair _⟩
    obtain ⟨coldetPair, hget, hof⟩ := h
    obtain ⟨l, hl⟩ := d.coldetModelPairs_prefix
      ⟨charName1, link1.name, charName2, link2.name, tolerance⟩
    rw [← hl, List.getElem?_append_left hlt] at hget
    exact ⟨coldetPair, hget, hof⟩
  · have hnot : ¬EntryAt d n link1 link2 := by
      rintro ⟨coldetPair, hget, -⟩
      exact absurd (List.getElem?_eq_some_iff.1 hget).1 (by omega)
    rw [or_iff_right hnot, and_iff_right heq.symm, EntryAt, CollisionDetector.addCollisionPair]
    simp only [Finds]
    rcases h₁ : d.findModel charName1 link1.name with _ | found₁
    · simp [heq]
    rcases h₂ : d.findModel charName2 link2.name with _ | found₂
    · simp [heq]
    simp [heq, ColdetModelPairEx.IsOf]

/-- The agreement of the tables, with the detector's list in place of what it returns. -/
theorem agrees_iff {s : DynamicsSimulator K} : Agrees s ↔
    ∀ i < s.collisionCheckLinkPairs.length, ∃ linkPair,
      s.collisionCheckLinkPairs[i]? = some (some linkPair) ∧
      EntryAt s.collisionDetector i linkPair.link0 linkPair.link1 := by
  refine forall₂_congr fun i _ ↦ exists_congr fun linkPair ↦ ?_
  simp only [DynamicsSimulator.initSimulation,
    CollisionDetector.queryContactDeterminationForDefinedPairs, List.getElem?_map,
    Option.map_eq_some_iff, EntryAt]
  constructor
  · rintro ⟨_, hget, ⟨coldetPair, hpair, rfl⟩, hof⟩
    exact ⟨hget, coldetPair, hpair, hof⟩
  · rintro ⟨hget, coldetPair, hpair, hof⟩
    exact ⟨_, hget, ⟨coldetPair, hpair, rfl⟩, hof⟩

/-- The solver's array is no longer than the detector's list. -/
theorem Agrees.length_le {s : DynamicsSimulator K} (h : Agrees s) :
    s.collisionCheckLinkPairs.length ≤ s.collisionDetector.coldetModelPairs.length := by
  by_contra hlt
  obtain ⟨_, -, _, hget, -⟩ := agrees_iff.1 h _ (not_le.1 hlt)
  simp at hget

/-- The world's map and the solver's array number the same pairs. -/
structure Numbered (s : DynamicsSimulator K) : Prop where
  length_eq : s.collisionCheckLinkPairs.length = s.world.numRegisteredLinkPairs
  lt_of_mem : ∀ e ∈ s.world.linkPairKeyToIndexMap, e.2 < s.world.numRegisteredLinkPairs
  index_eq : ∀ i < s.collisionCheckLinkPairs.length, ∃ linkPair,
    s.collisionCheckLinkPairs[i]? = some (some linkPair)

theorem numbered_init : Numbered (.init : DynamicsSimulator K) :=
  ⟨rfl, fun _ h ↦ by simp [DynamicsSimulator.init] at h,
    fun _ h ↦ by simp [DynamicsSimulator.init] at h⟩

section Runs

variable [LinearOrder Link] [Zero K]

def step (s : DynamicsSimulator K) : Call K → DynamicsSimulator K
  | .registerCharacter name bodyInfo => s.registerCharacter name bodyInfo
  | .registerCollisionCheckPair charName1 linkName1 charName2 linkName2 contact =>
    s.registerCollisionCheckPair charName1 linkName1 charName2 linkName2 contact
  | .registerIntersectionCheckPair charName1 linkName1 charName2 linkName2 tolerance =>
    s.registerIntersectionCheckPair charName1 linkName1 charName2 linkName2 tolerance

/-- The simulator after a sequence of registrations. -/
def run (calls : List (Call K)) : DynamicsSimulator K :=
  calls.foldl step .init

/-! ### Registrations that keep the agreement -/

/-- A pair is registered as the detector's list allows: a pair with an index in the order of the
detector's entry at this index; a new pair when the list is as long as the solver's array and the
detector finds the two links under their names, or when an entry for the pair already stands in
its place. -/
def HeedsPair (charName1 charName2 : String) (s : DynamicsSimulator K) (p : Link × Link) : Prop :=
  match s.world.find p.1 p.2 with
  | some i => EntryAt s.collisionDetector i p.1 p.2
  | none =>
    EntryAt s.collisionDetector s.world.numRegisteredLinkPairs p.1 p.2 ∨
      (s.collisionDetector.coldetModelPairs.length = s.world.numRegisteredLinkPairs ∧
        Finds s.collisionDetector charName1 p.1 ∧ Finds s.collisionDetector charName2 p.2)

/-- Every pair that a call registers for collision checks is registered as the detector's list
allows. -/
def Heeds (s : DynamicsSimulator K) : Call K → Prop
  | .registerCollisionCheckPair charName1 linkName1 charName2 linkName2 contact =>
    match s.select charName1 linkName1 charName2 linkName2 with
    | none => True
    | some (bodyIndex1, bodyIndex2, pairs) =>
      Along (DynamicsSimulator.registerLinkPair charName1 bodyIndex1 charName2 bodyIndex2 contact)
        (HeedsPair charName1 charName2) s pairs
  | _ => True

instance (charName1 charName2 : String) (s : DynamicsSimulator K) (p : Link × Link) :
    Decidable (HeedsPair charName1 charName2 s p) :=
  match h : s.world.find p.1 p.2 with
  | some i => decidable_of_iff (EntryAt s.collisionDetector i p.1 p.2) (by simp only [HeedsPair, h])
  | none => decidable_of_iff (_ ∨ (_ ∧ _)) (by simp only [HeedsPair, h]; exact Iff.rfl)

instance (s : DynamicsSimulator K) : (call : Call K) → Decidable (Heeds s call)
  | .registerCharacter .. => inferInstanceAs (Decidable True)
  | .registerIntersectionCheckPair .. => inferInstanceAs (Decidable True)
  | .registerCollisionCheckPair charName1 linkName1 charName2 linkName2 contact =>
    match h : s.select charName1 linkName1 charName2 linkName2 with
    | none => decidable_of_iff True (by simp only [Heeds, h])
    | some (bodyIndex1, bodyIndex2, pairs) =>
      decidable_of_iff (Along (DynamicsSimulator.registerLinkPair charName1 bodyIndex1 charName2
        bodyIndex2 contact) (HeedsPair charName1 charName2) s pairs) (by simp only [Heeds, h])

variable {s : DynamicsSimulator K} {charName1 charName2 : String} {bodyIndex1 bodyIndex2 : ℕ}
  {contact : Contact K} {p : Link × Link}

omit [Zero K] in
theorem find_lt (hs : Numbered s) {i : ℕ} (h : s.world.find p.1 p.2 = some i) :
    i < s.collisionCheckLinkPairs.length := by
  rw [World.find, List.lookup_eq_some_iff] at h
  obtain ⟨l₁, l₂, hl, -⟩ := h
  rw [hs.length_eq]
  exact hs.lt_of_mem (World.linkPairKey p.1 p.2, i) (by simp [hl])

theorem registerLinkPair_of_eq (h : p.1 = p.2) :
    s.registerLinkPair charName1 bodyIndex1 charName2 bodyIndex2 contact p = s := by
  simp only [DynamicsSimulator.registerLinkPair, DynamicsSimulator.addCollisionCheckLinkPair,
    World.getIndexOfLinkPairs, if_pos h]

/-- A pair that has an index is written again, and the detector is not told. -/
theorem registerLinkPair_of_find (hs : Numbered s) (hne : p.1 ≠ p.2) {i : ℕ}
    (h : s.world.find p.1 p.2 = some i) :
    s.registerLinkPair charName1 bodyIndex1 charName2 bodyIndex2 contact p =
      { s with
        collisionCheckLinkPairs := s.collisionCheckLinkPairs.set i
          (some (.set i bodyIndex1 p.1 bodyIndex2 p.2 contact 0)) } := by
  simp only [DynamicsSimulator.registerLinkPair, DynamicsSimulator.addCollisionCheckLinkPair,
    World.getIndexOfLinkPairs, if_neg hne, h, Bool.not_true, store_of_lt (find_lt hs h)]

/-- A pair without an index gets the next one, and the detector is told. -/
theorem registerLinkPair_of_find_eq_none (hs : Numbered s) (hne : p.1 ≠ p.2)
    (h : s.world.find p.1 p.2 = none) :
    s.registerLinkPair charName1 bodyIndex1 charName2 bodyIndex2 contact p =
      { world := s.world.insert p.1 p.2
        collisionCheckLinkPairs := s.collisionCheckLinkPairs ++
          [some (.set s.world.numRegisteredLinkPairs bodyIndex1 p.1 bodyIndex2 p.2 contact 0)]
        collisionDetector := s.collisionDetector.addCollisionPair
          ⟨charName1, p.1.name, charName2, p.2.name, 0⟩ } := by
  simp only [DynamicsSimulator.registerLinkPair, DynamicsSimulator.addCollisionCheckLinkPair,
    World.getIndexOfLinkPairs, if_neg hne, h, Bool.not_false, DynamicsSimulator.addCollisionPair,
    ← hs.length_eq, store_length]

theorem Numbered.registerLinkPair (hs : Numbered s) :
    Numbered (s.registerLinkPair charName1 bodyIndex1 charName2 bodyIndex2 contact p) := by
  by_cases hne : p.1 = p.2
  · rwa [registerLinkPair_of_eq hne]
  rcases h : s.world.find p.1 p.2 with _ | i
  · rw [registerLinkPair_of_find_eq_none hs hne h]
    refine ⟨by simp [World.insert, hs.length_eq], fun e he ↦ ?_, fun i hi ↦ ?_⟩
    · rcases List.mem_cons.1 he with rfl | he
      · exact Nat.lt_succ_self _
      · exact Nat.lt_succ_of_lt (hs.lt_of_mem e he)
    · rcases Nat.lt_or_ge i s.collisionCheckLinkPairs.length with hlt | hge
      · obtain ⟨linkPair, hget⟩ := hs.index_eq i hlt
        exact ⟨linkPair, (List.getElem?_append_left hlt).trans hget⟩
      · obtain rfl : i = s.collisionCheckLinkPairs.length := by
          simp only [List.length_append, List.length_singleton] at hi
          omega
        exact ⟨_, List.getElem?_concat_length⟩
  · rw [registerLinkPair_of_find hs hne h]
    refine ⟨by simpa using hs.length_eq, hs.lt_of_mem, fun j hj ↦ ?_⟩
    rw [List.length_set] at hj
    by_cases hij : i = j
    · subst hij
      exact ⟨_, by rw [List.getElem?_set_self hj]⟩
    · rw [List.getElem?_set_ne hij]
      exact hs.index_eq j hj

/-- A registration keeps the agreement exactly when it heeds the detector's list. -/
theorem Agrees.registerLinkPair_iff (h : Agrees s) (hs : Numbered s) (hne : p.1 ≠ p.2) :
    Agrees (s.registerLinkPair charName1 bodyIndex1 charName2 bodyIndex2 contact p) ↔
      HeedsPair charName1 charName2 s p := by
  rw [HeedsPair]
  rcases hfind : s.world.find p.1 p.2 with _ | i
  · rw [registerLinkPair_of_find_eq_none hs hne hfind, agrees_iff, ← hs.length_eq]
    refine Iff.trans ?_ (entryAt_addCollisionPair_iff 0 h.length_le)
    constructor
    · intro h'
      obtain ⟨linkPair, hget, hentry⟩ := h' s.collisionCheckLinkPairs.length (by simp)
      rw [List.getElem?_concat_length] at hget
      obtain rfl := Option.some_inj.1 (Option.some_inj.1 hget)
      exact hentry
    · intro hentry i hi
      rcases Nat.lt_or_ge i s.collisionCheckLinkPairs.length with hlt | hge
      · obtain ⟨linkPair, hget, hentry⟩ := agrees_iff.1 h i hlt
        exact ⟨linkPair, (List.getElem?_append_left hlt).trans hget, hentry.addCollisionPair _⟩
      · obtain rfl : i = s.collisionCheckLinkPairs.length := by
          simp only [List.length_append, List.length_singleton] at hi
          omega
        exact ⟨_, List.getElem?_concat_length, hentry⟩
  · have hlt := find_lt hs hfind
    rw [registerLinkPair_of_find hs hne hfind, agrees_iff]
    simp only [List.length_set]
    constructor
    · intro h'
      obtain ⟨linkPair, hget, hentry⟩ := h' i hlt
      rw [List.getElem?_set_self hlt] at hget
      obtain rfl := Option.some_inj.1 (Option.some_inj.1 hget)
      exact hentry
    · intro hentry j hj
      by_cases hij : i = j
      · subst hij
        exact ⟨_, List.getElem?_set_self hlt, hentry⟩
      · obtain ⟨linkPair, hget, hentry⟩ := agrees_iff.1 h j hj
        exact ⟨linkPair, (List.getElem?_set_ne hij).trans hget, hentry⟩

theorem Agrees.registerLinkPair (h : Agrees s) (hs : Numbered s)
    (hp : HeedsPair charName1 charName2 s p) :
    Agrees (s.registerLinkPair charName1 bodyIndex1 charName2 bodyIndex2 contact p) := by
  by_cases hne : p.1 = p.2
  · rwa [registerLinkPair_of_eq hne]
  · exact (h.registerLinkPair_iff hs hne).2 hp

section

omit [LinearOrder Link] [Zero K]

theorem Numbered.addCollisionPair (hs : Numbered s) (link1 link2 : Link) (tolerance : K) :
    Numbered (s.addCollisionPair charName1 link1 charName2 link2 tolerance) :=
  ⟨hs.length_eq, hs.lt_of_mem, hs.index_eq⟩

theorem Agrees.addCollisionPair (h : Agrees s) (link1 link2 : Link) (tolerance : K) :
    Agrees (s.addCollisionPair charName1 link1 charName2 link2 tolerance) := by
  refine agrees_iff.2 fun i hi ↦ ?_
  obtain ⟨linkPair, hget, hentry⟩ := agrees_iff.1 h i hi
  exact ⟨linkPair, hget, hentry.addCollisionPair _⟩

end

theorem Numbered.step (hs : Numbered s) (call : Call K) : Numbered (step s call) := by
  rcases call with ⟨name, bodyInfo⟩ | ⟨charName1, linkName1, charName2, linkName2, contact⟩ |
    ⟨charName1, linkName1, charName2, linkName2, tolerance⟩
  · show Numbered (s.registerCharacter name bodyInfo)
    rw [DynamicsSimulator.registerCharacter]
    split
    · exact hs
    · exact ⟨hs.length_eq, hs.lt_of_mem, hs.index_eq⟩
  · show Numbered (s.registerCollisionCheckPair charName1 linkName1 charName2 linkName2 contact)
    rw [DynamicsSimulator.registerCollisionCheckPair]
    split
    · exact hs
    · exact foldl_invariant hs (fun s p hs ↦ hs.registerLinkPair) _
  · show Numbered
      (s.registerIntersectionCheckPair charName1 linkName1 charName2 linkName2 tolerance)
    rw [DynamicsSimulator.registerIntersectionCheckPair]
    split
    · exact hs
    · exact foldl_invariant hs (fun s p hs ↦ hs.addCollisionPair _ _ _) _

theorem Agrees.step (h : Agrees s) (hs : Numbered s) {call : Call K} (hc : Heeds s call) :
    Agrees (step s call) := by
  rcases call with ⟨name, bodyInfo⟩ | ⟨charName1, linkName1, charName2, linkName2, contact⟩ |
    ⟨charName1, linkName1, charName2, linkName2, tolerance⟩
  · show Agrees (s.registerCharacter name bodyInfo)
    rw [DynamicsSimulator.registerCharacter]
    split
    · exact h
    · exact h
  · show Agrees (s.registerCollisionCheckPair charName1 linkName1 charName2 linkName2 contact)
    rw [DynamicsSimulator.registerCollisionCheckPair]
    rcases hsel : s.select charName1 linkName1 charName2 linkName2 with
      _ | ⟨bodyIndex1, bodyIndex2, pairs⟩
    · exact h
    · simp only [Heeds, hsel] at hc
      refine (hc.foldl (I := fun s ↦ Numbered s ∧ Agrees s) ⟨hs, h⟩ fun s p hI hp ↦ ?_).2
      exact ⟨hI.1.registerLinkPair, hI.2.registerLinkPair hI.1 hp⟩
  · show Agrees (s.registerIntersectionCheckPair charName1 linkName1 charName2 linkName2 tolerance)
    rw [DynamicsSimulator.registerIntersectionCheckPair]
    split
    · exact h
    · exact foldl_invariant h (fun s p h ↦ h.addCollisionPair _ _ _) _

theorem numbered_run (calls : List (Call K)) : Numbered (run calls) :=
  foldl_invariant numbered_init (fun _ call hs ↦ hs.step call) calls

omit [LinearOrder Link] [Zero K] in
theorem agrees_init : Agrees (.init : DynamicsSimulator K) :=
  fun _ h ↦ by simp [DynamicsSimulator.init] at h

/-- **The indices of the solver and of the detector agree** after every run whose registrations
heed the detector's list; and while they agree, the registration of a pair keeps the agreement
exactly when it heeds the list. -/
theorem agrees_run_of_heeds :
    (∀ calls : List (Call K), Along step Heeds .init calls → Agrees (run calls)) ∧
    ∀ calls : List (Call K), Agrees (run calls) →
      ∀ charName1 bodyIndex1 charName2 bodyIndex2 contact (p : Link × Link), p.1 ≠ p.2 →
        (Agrees ((run calls).registerLinkPair charName1 bodyIndex1 charName2 bodyIndex2 contact p) ↔
          HeedsPair charName1 charName2 (run calls) p) := by
  refine ⟨fun calls hc ↦ ?_, fun calls h _ _ _ _ _ _ hne ↦ h.registerLinkPair_iff
    (numbered_run calls) hne⟩
  refine (hc.foldl (I := fun s ↦ Numbered s ∧ Agrees s) ⟨numbered_init, agrees_init⟩
    fun s call hI hcall ↦ ?_).2
  exact ⟨hI.1.step call, hI.2.step hI.1 hcall⟩

end Runs

/-- An order of addresses: that of the bodies and, within a body, of the traversal. -/
@[reducible]
def addressOrder : LinearOrder Link :=
  LinearOrder.lift'
    (fun link ↦ (toLex (link.body, toLex (link.index, toLex (link.name, link.info))) :
      ℕ ×ₗ ℕ ×ₗ String ×ₗ ℕ))
    fun a b h ↦ by
      rcases a with ⟨b₁, i₁, n₁, k₁⟩
      rcases b with ⟨b₂, i₂, n₂, k₂⟩
      simpa [Prod.ext_iff] using h

/-- A robot with one joint. -/
def robot : List LinkInfo :=
  [⟨"BASE", -1, [1]⟩, ⟨"ARM", 0, []⟩]

theorem agrees_run_of_heeds_floor : @Agrees ℤ (@run ℤ addressOrder _
    [.registerCharacter "floor" [⟨"BASE", -1, []⟩], .registerCharacter "robot" robot,
      .registerCollisionCheckPair "floor" "" "robot" "" ⟨0, 0, 0, 0⟩]) :=
  (@agrees_run_of_heeds ℤ addressOrder _).1 _ (by decide +kernel)

/-- Registering all pairs of links of one character meets each pair in both orders: the solver keeps
the second, the detector the first. -/
theorem not_agrees_run_self : ¬ ∀ (_ : LinearOrder Link) (calls : List (Call ℤ)),
    Agrees (run calls) := by
  intro h
  let calls : List (Call ℤ) := [.registerCharacter "robot" robot,
    .registerCollisionCheckPair "robot" "" "robot" "" ⟨0, 0, 0, 0⟩]
  have h : Agrees (@run ℤ addressOrder _ calls) := h addressOrder calls
  obtain ⟨linkPair, hget, coldetPair, hpair, hof⟩ := agrees_iff.1 h 0 (by decide +kernel)
  have hinfo : (@run ℤ addressOrder _ calls).collisionDetector.coldetModelPairs[0]?.map
      (·.model0.index) = (@run ℤ addressOrder _ calls).collisionCheckLinkPairs[0]?.join.map
      (·.link0.info) := by
    rw [hget, hpair]
    exact congrArg some hof.1.2
  revert hinfo
  decide +kernel

end OpenHRP.Simulator
