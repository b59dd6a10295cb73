import OpenHRP.ConstraintForce.ExtraJoints
import OpenHRP.Simulator.CollisionPairs

/-!
# Initialization of the constraint solver

Between the calls that register pairs, `initialize` builds the data of the bodies anew, appends a
pair for every extra joint of the bodies, and lets all stored pairs point to the new data.

The list of these pairs survives, and nothing removes what an earlier initialization has appended.
So after an initialization there is one pair for each extra joint exactly when it is the first one,
or when the bodies have no extra joints; besides all of them must be of the type for which a pair is
made at all (`initializesRightly_iff`). The pointers are right in any case.
-/

namespace OpenHRP.ConstraintForce

open Simulator (World Contact)

variable {K : Type*}

/-! ### The bodies -/

/-- The link is link number `link.index` of body number `bodyIndex`. -/
def IsLink (links : List (List Simulator.Link)) (bodyIndex : ℕ) (link : Simulator.Link) : Prop :=
  ∃ bodyLinks, links[bodyIndex]? = some bodyLinks ∧ bodyLinks[link.index]? = some link

/-- A link, with the number of its body. -/
structure BodyLink (links : List (List Simulator.Link)) where
  bodyIndex : ℕ
  link : Simulator.Link
  isLink : IsLink links bodyIndex link

/-- The bodies of a world: their links in the order of the index, and their extra joints. -/
structure Bodies (K : Type*) where
  links : List (List Simulator.Link)
  extraJoints : ℕ → List (ExtraJoint Simulator.Link K)
  isLink : ∀ bodyIndex < links.length, ∀ j ∈ extraJoints bodyIndex, ∀ k,
    IsLink links bodyIndex (j.link k)

/-- The extra joints of all bodies, each with the number of its body, in the order in which
`initExtraJoints` comes to them. -/
def allExtraJoints (bodies : Bodies K) : List (ℕ × ExtraJoint Simulator.Link K) :=
  (List.range bodies.links.length).flatMap fun bodyIndex ↦
    (bodies.extraJoints bodyIndex).map fun j ↦ (bodyIndex, j)

/-! ### The solver -/

/-- Where the vectors `bodiesData` and, for each body, `linksData` lie in memory. -/
structure Layout where
  bodiesData : ℕ
  linksData : ℕ → ℕ

/-- What the registrations and the initialization change of a `CFSImpl` and of its world. -/
structure CFSImpl (K : Type*) where
  world : World
  layout : Layout
  collisionCheckLinkPairs : List (Option (LinkPair Simulator.Link K))
  extraJointLinkPairs : List (ExtraJointLinkPair Simulator.Link K)

/-- A solver before any registration. -/
def CFSImpl.init (bodies : Bodies K) : CFSImpl K where
  world := ⟨bodies.links, [], [], 0⟩
  layout := ⟨0, fun _ ↦ 0⟩
  collisionCheckLinkPairs := []
  extraJointLinkPairs := []

/-- A registration call or an initialization, with the memory that it gets for its data. -/
inductive Call (bodies : Bodies K)
  | addCollisionCheckLinkPair (link1 link2 : BodyLink bodies.links) (contact : Contact K)
    (epsilon : K)
  | addExtraJoint (link1 link2 : BodyLink bodies.links) (link1LocalPos link2LocalPos : Vector3 K)
    (jointType : ℤ) (jointAxis : Vector3 K)
  | clearCollisionCheckLinkPairs
  | initializeSolver (layout : Layout)

/-- `new LinkPair()`, before its fields are set. -/
def LinkPair.new [Zero K] (link1 link2 : Simulator.Link) : LinkPair Simulator.Link K where
  index := 0
  isSameBodyPair := false
  bodyIndex := 0
  bodyData := fun _ ↦ none
  link := ![link1, link2]
  linkData := fun _ ↦ none
  constraintPoints := []
  isNonContactConstraint := false
  muStatic := 0
  muDynamic := 0
  culling_thresh := 0
  restitution := 0
  epsilon := 0

/-- What `addCollisionCheckLinkPair` writes into the pair at its index. -/
def LinkPair.setCheck (linkPair : LinkPair Simulator.Link K) (index bodyIndex1 : ℕ)
    (link1 : Simulator.Link) (bodyIndex2 : ℕ) (link2 : Simulator.Link) (contact : Contact K)
    (epsilon : K) : LinkPair Simulator.Link K :=
  { linkPair with
    isSameBodyPair := bodyIndex1 = bodyIndex2
    bodyIndex := ![bodyIndex1, bodyIndex2]
    link := ![link1, link2]
    index := index
    isNonContactConstraint := false
    muStatic := contact.staticFriction
    muDynamic := contact.slipFriction
    culling_thresh := contact.culling_thresh
    restitution := contact.restitution
    epsilon := epsilon }

namespace CFSImpl

variable [Field K] [LinearOrder K] [CMath K] [LinearOrder Simulator.Link]

def addCollisionCheckLinkPair (s : CFSImpl K) (bodyIndex1 : ℕ) (link1 : Simulator.Link)
    (bodyIndex2 : ℕ)
    (link2 : Simulator.Link) (contact : Contact K) (epsilon : K) : CFSImpl K :=
  match s.world.getIndexOfLinkPairs link1 link2 with
  | (world, some index, _) =>
    let linkPair := (s.collisionCheckLinkPairs.getD index none).getD (.new link1 link2)
    { s with
      world := world
      collisionCheckLinkPairs := Simulator.store s.collisionCheckLinkPairs index
        (linkPair.setCheck index bodyIndex1 link1 bodyIndex2 link2 contact epsilon) }
  | (world, none, _) => { s with world := world }

def clearCollisionCheckLinkPairs (s : CFSImpl K) : CFSImpl K :=
  { s with
    world := { s.world with linkPairKeyToIndexMap := [], numRegisteredLinkPairs := 0 }
    collisionCheckLinkPairs := [] }

/-- The pairs that the calls of `initExtraJoints` append. -/
def initExtraJoints (bodies : Bodies K) : Option (List (ExtraJointLinkPair Simulator.Link K)) :=
  (allExtraJoints bodies).mapM fun j ↦ initExtraJoint j.1 j.2

end CFSImpl

/-- The data of a body in its vector. -/
def Layout.bodyAddress (layout : Layout) (bodyIndex : ℕ) : Address :=
  ⟨layout.bodiesData, bodyIndex⟩

/-- The data of a link in the vector of its body. -/
def Layout.linkAddress (layout : Layout) (bodyIndex : ℕ) (link : Simulator.Link) : Address :=
  ⟨layout.linksData bodyIndex, link.index⟩

/-- The pair points to the data of its bodies and links. -/
def LinkPair.setData (layout : Layout) (linkPair : LinkPair Simulator.Link K) :
    LinkPair Simulator.Link K :=
  { linkPair with
    bodyData := fun k ↦ some (layout.bodyAddress (linkPair.bodyIndex k))
    linkData := fun k ↦ some (layout.linkAddress (linkPair.bodyIndex k) (linkPair.link k)) }

def ExtraJointLinkPair.setData (layout : Layout) (linkPair : ExtraJointLinkPair Simulator.Link K) :
    ExtraJointLinkPair Simulator.Link K :=
  { linkPair with
    bodyData := (linkPair.toLinkPair.setData layout).bodyData
    linkData := (linkPair.toLinkPair.setData layout).linkData }

namespace CFSImpl

variable [Field K] [LinearOrder K] [CMath K] [LinearOrder Simulator.Link]

/-- `initialize`; `none` when a null pointer is dereferenced. -/
def initializeSolver (bodies : Bodies K) (s : CFSImpl K) (layout : Layout) : Option (CFSImpl K) :=
  (initExtraJoints bodies).bind fun linkPairs ↦
    (s.collisionCheckLinkPairs.mapM id).map fun collisionCheckLinkPairs ↦
      { s with
        layout := layout
        collisionCheckLinkPairs := collisionCheckLinkPairs.map fun p ↦ some (p.setData layout)
        extraJointLinkPairs :=
          (s.extraJointLinkPairs ++ linkPairs).map (ExtraJointLinkPair.setData layout) }

def step (bodies : Bodies K) (s : CFSImpl K) : Call bodies → Option (CFSImpl K)
  | .addCollisionCheckLinkPair link1 link2 contact epsilon =>
    some (s.addCollisionCheckLinkPair link1.bodyIndex link1.link link2.bodyIndex link2.link contact
      epsilon)
  | .addExtraJoint link1 link2 link1LocalPos link2LocalPos jointType jointAxis =>
    some { s with
      extraJointLinkPairs := s.extraJointLinkPairs ++ [ConstraintForce.addExtraJoint
        link1.bodyIndex link1.link link2.bodyIndex link2.link link1LocalPos link2LocalPos jointType
        jointAxis] }
  | .clearCollisionCheckLinkPairs => some s.clearCollisionCheckLinkPairs
  | .initializeSolver layout => initializeSolver bodies s layout

/-- The solver after a sequence of calls; `none` when a null pointer is dereferenced. -/
def run (bodies : Bodies K) (calls : List (Call bodies)) : Option (CFSImpl K) :=
  calls.foldlM (step bodies) (init bodies)

end CFSImpl

/-! ### What an initialization should leave -/

/-- The pair points to the data of its bodies and links, and these exist. -/
def PointsToData (bodies : Bodies K) (layout : Layout) (linkPair : LinkPair Simulator.Link K) :
    Prop :=
  ∀ k, IsLink bodies.links (linkPair.bodyIndex k) (linkPair.link k) ∧
    linkPair.bodyData k = some (layout.bodyAddress (linkPair.bodyIndex k)) ∧
    linkPair.linkData k = some (layout.linkAddress (linkPair.bodyIndex k) (linkPair.link k))

/-- The pair without its pointers. -/
def ExtraJointLinkPair.unlinked (linkPair : ExtraJointLinkPair Simulator.Link K) :
    ExtraJointLinkPair Simulator.Link K :=
  { linkPair with bodyData := fun _ ↦ none, linkData := fun _ ↦ none }

/-- The pair is one for the extra joint `j.2` of body number `j.1`. -/
def IsPairOf (j : ℕ × ExtraJoint Simulator.Link K)
    (linkPair : ExtraJointLinkPair Simulator.Link K) : Prop :=
  linkPair.bodyIndex = (fun _ ↦ j.1) ∧ linkPair.link = j.2.link ∧ linkPair.jointPoint = j.2.point

section Specification

variable [Field K] [LinearOrder K] [CMath K] {bodies : Bodies K}

/-- The pair that a call of `addExtraJoint` registers. -/
def Call.added : Call bodies → Option (ExtraJointLinkPair Simulator.Link K)
  | .addExtraJoint link1 link2 link1LocalPos link2LocalPos jointType jointAxis =>
    some (ConstraintForce.addExtraJoint link1.bodyIndex link1.link link2.bodyIndex link2.link
      link1LocalPos link2LocalPos jointType jointAxis)
  | _ => none

/-- The state after an initialization: one pair for each extra joint of the bodies and one for each
call of `addExtraJoint` before, and all pointers are right. -/
structure IsInitialized (bodies : Bodies K) (calls : List (Call bodies)) (s : CFSImpl K) :
    Prop where
  pairs : ∃ jointPairs, List.Forall₂ IsPairOf (allExtraJoints bodies) jointPairs ∧
    (s.extraJointLinkPairs.map ExtraJointLinkPair.unlinked).Perm
      (calls.filterMap Call.added ++ jointPairs)
  joints : ∀ linkPair ∈ s.extraJointLinkPairs, PointsToData bodies s.layout linkPair.toLinkPair
  collisions : ∀ linkPair ∈ s.collisionCheckLinkPairs,
    ∃ p, linkPair = some p ∧ PointsToData bodies s.layout p

/-- Every initialization of the run ends, and leaves what it should. -/
def InitializesRightly [LinearOrder Simulator.Link] (bodies : Bodies K)
    (calls : List (Call bodies)) : Prop :=
  ∀ before layout, before ++ [.initializeSolver layout] <+: calls →
    ∃ s, CFSImpl.run bodies (before ++ [.initializeSolver layout]) = some s ∧
      IsInitialized bodies before s

/-! ### The pairs of the extra joints -/

theorem unlinked_addExtraJoint (bodyIndex1 : ℕ) (link1 : Simulator.Link) (bodyIndex2 : ℕ)
    (link2 : Simulator.Link) (link1LocalPos link2LocalPos : Vector3 K) (jointType : ℤ)
    (jointAxis : Vector3 K) :
    (addExtraJoint bodyIndex1 link1 bodyIndex2 link2 link1LocalPos link2LocalPos jointType
      jointAxis).unlinked = addExtraJoint bodyIndex1 link1 bodyIndex2 link2 link1LocalPos
        link2LocalPos jointType jointAxis := by
  rw [addExtraJoint]
  split_ifs <;> rfl

theorem eq_pairXY_of_initExtraJoint {bodyIndex : ℕ} {j : ExtraJoint Simulator.Link K}
    {linkPair : ExtraJointLinkPair Simulator.Link K}
    (h : initExtraJoint bodyIndex j = some linkPair) : linkPair = pairXY bodyIndex j := by
  by_cases htype : j.type = .EJ_XY
  · rw [initExtraJoint_eq_some htype] at h
    exact (Option.some.inj h).symm
  · rw [initExtraJoint_eq_none htype] at h
    exact absurd h nofun

theorem exists_initExtraJoint_iff {bodyIndex : ℕ} {j : ExtraJoint Simulator.Link K} :
    (∃ linkPair, initExtraJoint bodyIndex j = some linkPair) ↔ j.type = .EJ_XY := by
  refine ⟨fun ⟨linkPair, h⟩ ↦ ?_, fun h ↦ ⟨_, initExtraJoint_eq_some h⟩⟩
  by_contra htype
  rw [initExtraJoint_eq_none htype] at h
  exact absurd h nofun

/-- The pairs of all extra joints are made when these are of the type `EJ_XY`. -/
theorem exists_initExtraJoints_iff :
    (∃ linkPairs, CFSImpl.initExtraJoints bodies = some linkPairs) ↔
      ∀ j ∈ allExtraJoints bodies, j.2.type = .EJ_XY := by
  rw [CFSImpl.initExtraJoints, exists_mapM_eq_some_iff]
  exact forall₂_congr fun j _ ↦ exists_initExtraJoint_iff

theorem forall₂_of_initExtraJoints {linkPairs : List (ExtraJointLinkPair Simulator.Link K)}
    (h : CFSImpl.initExtraJoints bodies = some linkPairs) :
    List.Forall₂ (fun j p ↦ p = pairXY j.1 j.2) (allExtraJoints bodies) linkPairs :=
  (mapM_eq_some_iff.1 h).imp fun _ _ ↦ eq_pairXY_of_initExtraJoint

omit [Field K] [LinearOrder K] [CMath K] in
theorem isLink_of_mem_allExtraJoints {j : ℕ × ExtraJoint Simulator.Link K}
    (h : j ∈ allExtraJoints bodies) (k : Fin 2) : IsLink bodies.links j.1 (j.2.link k) := by
  obtain ⟨bodyIndex, hbody, hj⟩ := List.mem_flatMap.1 h
  obtain ⟨j', hj', rfl⟩ := List.mem_map.1 hj
  exact bodies.isLink bodyIndex (List.mem_range.1 hbody) j' hj' k

end Specification

/-! ### What is stored -/

section Invariant

variable [Field K] [LinearOrder K] [CMath K] {bodies : Bodies K}

def Call.isInitialize : Call bodies → Bool
  | .initializeSolver _ => true
  | _ => false

/-- The state after some calls: every number that the world has given to a pair is in the solver's
array, where there is a pair of links of the bodies; and the pairs of the extra joints have been
appended at each initialization. -/
structure Stored (bodies : Bodies K) (calls : List (Call bodies)) (s : CFSImpl K) : Prop where
  table : ∀ e ∈ s.world.linkPairKeyToIndexMap, e.2 < s.world.numRegisteredLinkPairs
  length : s.collisionCheckLinkPairs.length = s.world.numRegisteredLinkPairs
  collisions : ∀ linkPair ∈ s.collisionCheckLinkPairs, ∃ p, linkPair = some p ∧
    ∀ k, IsLink bodies.links (p.bodyIndex k) (p.link k)
  joints : ∀ p ∈ s.extraJointLinkPairs, ∀ k, IsLink bodies.links (p.bodyIndex k) (p.link k)
  pairs : (s.extraJointLinkPairs.map ExtraJointLinkPair.unlinked).Perm
    (calls.filterMap Call.added ++ (List.replicate (calls.countP Call.isInitialize)
      ((CFSImpl.initExtraJoints bodies).getD [])).flatten)

variable {calls : List (Call bodies)} {s : CFSImpl K}

omit [Field K] [LinearOrder K] [CMath K] in
theorem countP_append_init (calls : List (Call bodies)) (layout : Layout) :
    (calls ++ [Call.initializeSolver layout]).countP Call.isInitialize =
      calls.countP Call.isInitialize + 1 := by
  rw [List.countP_append]
  rfl

theorem filterMap_append_init (calls : List (Call bodies)) (layout : Layout) :
    (calls ++ [Call.initializeSolver layout]).filterMap Call.added =
      calls.filterMap Call.added := by
  rw [List.filterMap_append]
  exact List.append_nil _

theorem stored_init : Stored bodies [] (.init bodies) :=
  ⟨nofun, rfl, nofun, nofun, .refl _⟩

/-- A call that leaves the pairs of the extra joints alone. -/
theorem Stored.pairs_append (h : Stored bodies calls s) (call : Call bodies)
    (hadded : call.added = none) (hinit : call.isInitialize = false) :
    (s.extraJointLinkPairs.map ExtraJointLinkPair.unlinked).Perm
      ((calls ++ [call]).filterMap Call.added ++
        (List.replicate ((calls ++ [call]).countP Call.isInitialize)
          ((CFSImpl.initExtraJoints bodies).getD [])).flatten) := by
  rw [List.filterMap_append, List.countP_append, List.filterMap_cons_none hadded,
    List.countP_singleton, hinit]
  simpa using h.pairs

theorem Stored.clear (h : Stored bodies calls s) :
    Stored bodies (calls ++ [.clearCollisionCheckLinkPairs]) s.clearCollisionCheckLinkPairs :=
  ⟨nofun, rfl, nofun, h.joints, h.pairs_append _ rfl rfl⟩

theorem Stored.addExtraJoint (h : Stored bodies calls s) (link1 link2 : BodyLink bodies.links)
    (link1LocalPos link2LocalPos : Vector3 K) (jointType : ℤ) (jointAxis : Vector3 K) :
    Stored bodies
      (calls ++ [.addExtraJoint link1 link2 link1LocalPos link2LocalPos jointType jointAxis])
      { s with
        extraJointLinkPairs := s.extraJointLinkPairs ++ [ConstraintForce.addExtraJoint
          link1.bodyIndex link1.link link2.bodyIndex link2.link link1LocalPos link2LocalPos
          jointType jointAxis] } := by
  refine ⟨h.table, h.length, h.collisions, fun p hp k ↦ ?_, ?_⟩
  · obtain hp | hp := List.mem_append.1 hp
    · exact h.joints p hp k
    · rw [List.mem_singleton.1 hp]
      fin_cases k
      · exact link1.isLink
      · exact link2.isLink
  · have hcount : (calls ++ [Call.addExtraJoint link1 link2 link1LocalPos link2LocalPos jointType
        jointAxis]).countP Call.isInitialize = calls.countP Call.isInitialize := by
      rw [List.countP_append]
      rfl
    rw [List.map_append, List.map_singleton, unlinked_addExtraJoint, List.filterMap_append, hcount,
      List.append_assoc]
    refine (h.pairs.append_right _).trans ?_
    rw [List.append_assoc]
    exact List.perm_append_comm.append_left _

variable {linkPairs : List (ExtraJointLinkPair Simulator.Link K)}

/-- The pairs that are made for the extra joints have no pointers yet. -/
theorem map_unlinked_of_initExtraJoints (h : CFSImpl.initExtraJoints bodies = some linkPairs) :
    linkPairs.map ExtraJointLinkPair.unlinked = linkPairs := by
  conv_rhs => rw [← List.map_id linkPairs]
  refine List.map_congr_left fun p hp ↦ ?_
  obtain ⟨j, -, hj⟩ := exists_of_mem_mapM h hp
  rw [eq_pairXY_of_initExtraJoint hj]
  rfl

theorem Stored.initializeSolver (h : Stored bodies calls s) (layout : Layout)
    (hjoints : CFSImpl.initExtraJoints bodies = some linkPairs)
    {checked : List (LinkPair Simulator.Link K)}
    (hchecked : s.collisionCheckLinkPairs.mapM id = some checked) :
    Stored bodies (calls ++ [.initializeSolver layout])
      { s with
        layout := layout
        collisionCheckLinkPairs := checked.map fun p ↦ some (p.setData layout)
        extraJointLinkPairs :=
          (s.extraJointLinkPairs ++ linkPairs).map (ExtraJointLinkPair.setData layout) } := by
  refine ⟨h.table, ?_, fun linkPair hmem ↦ ?_, fun p hp k ↦ ?_, ?_⟩
  · rw [List.length_map, ← (mapM_eq_some_iff.1 hchecked).length_eq, h.length]
  · obtain ⟨p, hp, rfl⟩ := List.mem_map.1 hmem
    obtain ⟨o, ho, rfl⟩ := exists_of_mem_mapM hchecked hp
    obtain ⟨p', heq, hlink⟩ := h.collisions _ ho
    obtain rfl := Option.some.inj heq
    exact ⟨_, rfl, hlink⟩
  · obtain ⟨p', hp', rfl⟩ := List.mem_map.1 hp
    obtain hp | hp := List.mem_append.1 hp'
    · exact h.joints p' hp k
    · obtain ⟨j, hj, hpair⟩ := exists_of_mem_mapM hjoints hp
      rw [eq_pairXY_of_initExtraJoint hpair]
      exact isLink_of_mem_allExtraJoints hj k
  · have hunlinked : ((s.extraJointLinkPairs ++ linkPairs).map (ExtraJointLinkPair.setData
        layout)).map ExtraJointLinkPair.unlinked =
        s.extraJointLinkPairs.map ExtraJointLinkPair.unlinked ++ linkPairs := by
      rw [List.map_map, List.map_append]
      conv_rhs => rw [← map_unlinked_of_initExtraJoints hjoints]
      rfl
    rw [hunlinked, countP_append_init, filterMap_append_init, List.replicate_succ',
      List.flatten_append,
      List.flatten_singleton, ← List.append_assoc, hjoints]
    refine List.Perm.append_right _ ?_
    rw [← hjoints]
    exact h.pairs

variable [LinearOrder Simulator.Link]

theorem Stored.addCollisionCheckLinkPair (h : Stored bodies calls s)
    (link1 link2 : BodyLink bodies.links) (contact : Contact K) (epsilon : K) :
    Stored bodies (calls ++ [.addCollisionCheckLinkPair link1 link2 contact epsilon])
      (s.addCollisionCheckLinkPair link1.bodyIndex link1.link link2.bodyIndex link2.link contact
        epsilon) := by
  have hpairs := h.pairs_append (.addCollisionCheckLinkPair link1 link2 contact epsilon) rfl rfl
  have hnew (p : LinkPair Simulator.Link K) (index : ℕ) (k : Fin 2) :
      let p' := p.setCheck index link1.bodyIndex link1.link link2.bodyIndex link2.link contact
        epsilon
      IsLink bodies.links (p'.bodyIndex k) (p'.link k) := by
    fin_cases k
    · exact link1.isLink
    · exact link2.isLink
  rw [CFSImpl.addCollisionCheckLinkPair, World.getIndexOfLinkPairs]
  by_cases hlinks : link1.link = link2.link
  · rw [if_pos hlinks]
    exact ⟨h.table, h.length, h.collisions, h.joints, hpairs⟩
  · rw [if_neg hlinks]
    cases hfind : s.world.find link1.link link2.link with
    | some index =>
      have hlt : index < s.collisionCheckLinkPairs.length := by
        obtain ⟨l₁, l₂, hl, -⟩ := List.lookup_eq_some_iff.1 hfind
        rw [h.length]
        exact h.table (World.linkPairKey link1.link link2.link, index) (by simp [hl])
      dsimp only
      rw [Simulator.store_of_lt hlt]
      refine ⟨h.table, (List.length_set ..).trans h.length, fun o ho ↦ ?_, h.joints, hpairs⟩
      obtain ho | rfl := List.mem_or_eq_of_mem_set ho
      · exact h.collisions o ho
      · exact ⟨_, rfl, hnew _ index⟩
    | none =>
      dsimp only
      rw [← h.length, Simulator.store_length]
      refine ⟨fun e he ↦ ?_, ?_, fun o ho ↦ ?_, h.joints, hpairs⟩
      · obtain rfl | he := List.mem_cons.1 he
        · exact Nat.lt_succ_self _
        · exact Nat.lt_succ_of_lt (h.table e he)
      · rw [List.length_append, h.length]
        rfl
      · obtain ho | ho := List.mem_append.1 ho
        · exact h.collisions o ho
        · rw [List.mem_singleton.1 ho]
          exact ⟨_, rfl, hnew _ _⟩

/-! ### Runs -/

theorem run_append (calls : List (Call bodies)) (call : Call bodies) :
    CFSImpl.run bodies (calls ++ [call]) =
      (CFSImpl.run bodies calls).bind fun s ↦ CFSImpl.step bodies s call := by
  rw [CFSImpl.run, List.foldlM_append]
  refine congrArg (Option.bind _) (funext fun s ↦ ?_)
  rw [List.foldlM_cons]
  exact Option.bind_fun_some _

omit [LinearOrder Simulator.Link] in
/-- The pointers of the checked pairs are not null. -/
theorem Stored.exists_mapM (h : Stored bodies calls s) :
    ∃ checked, s.collisionCheckLinkPairs.mapM id = some checked :=
  exists_mapM_eq_some_iff.2 fun o ho ↦
    let ⟨p, hp, _⟩ := h.collisions o ho
    ⟨p, hp⟩

theorem stored_run {calls : List (Call bodies)} {s : CFSImpl K}
    (h : CFSImpl.run bodies calls = some s) : Stored bodies calls s := by
  induction calls using List.reverseRecOn generalizing s with
  | nil =>
    obtain rfl := Option.some.inj h
    exact stored_init
  | append_singleton calls call ih =>
    rw [run_append] at h
    obtain ⟨s₀, hs₀, hstep⟩ := Option.bind_eq_some_iff.1 h
    have hstored := ih hs₀
    cases call with
    | addCollisionCheckLinkPair link1 link2 contact epsilon =>
      obtain rfl := Option.some.inj hstep
      exact hstored.addCollisionCheckLinkPair link1 link2 contact epsilon
    | addExtraJoint link1 link2 link1LocalPos link2LocalPos jointType jointAxis =>
      obtain rfl := Option.some.inj hstep
      exact hstored.addExtraJoint link1 link2 link1LocalPos link2LocalPos jointType jointAxis
    | clearCollisionCheckLinkPairs =>
      obtain rfl := Option.some.inj hstep
      exact hstored.clear
    | initializeSolver layout =>
      obtain ⟨linkPairs, hjoints, hmap⟩ := Option.bind_eq_some_iff.1 hstep
      obtain ⟨checked, hchecked, rfl⟩ := Option.map_eq_some_iff.1 hmap
      exact hstored.initializeSolver layout hjoints hchecked

/-- After an initialization all pointers are right. -/
theorem pointsToData_of_run {layout : Layout}
    (h : CFSImpl.run bodies (calls ++ [.initializeSolver layout]) = some s) :
    (∀ p ∈ s.extraJointLinkPairs, PointsToData bodies s.layout p.toLinkPair) ∧
      ∀ linkPair ∈ s.collisionCheckLinkPairs,
        ∃ p, linkPair = some p ∧ PointsToData bodies s.layout p := by
  have hstored := stored_run h
  rw [run_append] at h
  obtain ⟨s₀, -, hstep⟩ := Option.bind_eq_some_iff.1 h
  obtain ⟨linkPairs, -, hmap⟩ := Option.bind_eq_some_iff.1 hstep
  obtain ⟨checked, -, rfl⟩ := Option.map_eq_some_iff.1 hmap
  refine ⟨fun p hp k ↦ ?_, fun linkPair hmem ↦ ?_⟩
  · have hlink := hstored.joints p hp k
    obtain ⟨p', -, rfl⟩ := List.mem_map.1 hp
    exact ⟨hlink, rfl, rfl⟩
  · obtain ⟨p, hp, hlink⟩ := hstored.collisions linkPair hmem
    obtain ⟨p', -, rfl⟩ := List.mem_map.1 hmem
    obtain rfl := Option.some.inj hp
    exact ⟨_, rfl, fun k ↦ ⟨hlink k, rfl, rfl⟩⟩

/-- A run whose initializations can make the pairs of the extra joints ends. -/
theorem exists_run (calls : List (Call bodies))
    (h : calls.countP Call.isInitialize = 0 ∨
      ∃ linkPairs, CFSImpl.initExtraJoints bodies = some linkPairs) :
    ∃ s, CFSImpl.run bodies calls = some s := by
  induction calls using List.reverseRecOn with
  | nil => exact ⟨_, rfl⟩
  | append_singleton calls call ih =>
    rw [List.countP_append, Nat.add_eq_zero_iff] at h
    obtain ⟨s, hs⟩ := ih (h.imp_left And.left)
    rw [run_append, hs]
    cases call with
    | addCollisionCheckLinkPair link1 link2 contact epsilon => exact ⟨_, rfl⟩
    | addExtraJoint link1 link2 link1LocalPos link2LocalPos jointType jointAxis => exact ⟨_, rfl⟩
    | clearCollisionCheckLinkPairs => exact ⟨_, rfl⟩
    | initializeSolver layout =>
      obtain ⟨linkPairs, hjoints⟩ := h.resolve_left fun h0 ↦ one_ne_zero h0.2
      obtain ⟨checked, hchecked⟩ := (stored_run hs).exists_mapM
      rw [Option.bind_some, CFSImpl.step, CFSImpl.initializeSolver, hjoints, hchecked]
      exact ⟨_, rfl⟩

omit [Field K] [LinearOrder K] [CMath K] [LinearOrder Simulator.Link] in
/-- The last initialization of a run. -/
theorem exists_last_init {calls : List (Call bodies)} (h : calls.countP Call.isInitialize ≠ 0) :
    ∃ before layout, before ++ [.initializeSolver layout] <+: calls ∧
      before.countP Call.isInitialize + 1 = calls.countP Call.isInitialize := by
  induction calls using List.reverseRecOn with
  | nil => exact absurd rfl h
  | append_singleton calls call ih =>
    rw [List.countP_append, List.countP_singleton] at h ⊢
    by_cases hcall : call.isInitialize = true
    · cases call with
      | initializeSolver layout => exact ⟨calls, layout, List.prefix_rfl, rfl⟩
      | addCollisionCheckLinkPair => exact absurd hcall nofun
      | addExtraJoint => exact absurd hcall nofun
      | clearCollisionCheckLinkPairs => exact absurd hcall nofun
    · rw [if_neg hcall] at h ⊢
      obtain ⟨before, layout, hbefore, hcount⟩ := ih h
      exact ⟨before, layout, hbefore.trans (List.prefix_append _ _), hcount⟩

/-- Every initialization of a run leaves what it should exactly when there is none, or all extra
joints of the bodies are of the type `EJ_XY` and there is one initialization at most or no extra
joint. -/
theorem initializesRightly_iff (bodies : Bodies K) (calls : List (Call bodies)) :
    InitializesRightly bodies calls ↔ calls.countP Call.isInitialize = 0 ∨
      (∀ j ∈ allExtraJoints bodies, j.2.type = .EJ_XY) ∧
        (calls.countP Call.isInitialize ≤ 1 ∨ allExtraJoints bodies = []) := by
  constructor
  · intro h
    by_cases hcount : calls.countP Call.isInitialize = 0
    · exact .inl hcount
    obtain ⟨before, layout, hbefore, hlast⟩ := exists_last_init hcount
    obtain ⟨s, hs, hinit⟩ := h before layout hbefore
    have hstored := stored_run hs
    rw [run_append] at hs
    obtain ⟨s₀, -, hstep⟩ := Option.bind_eq_some_iff.1 hs
    obtain ⟨linkPairs, hjoints, -⟩ := Option.bind_eq_some_iff.1 hstep
    refine .inr ⟨exists_initExtraJoints_iff.1 ⟨linkPairs, hjoints⟩, ?_⟩
    obtain ⟨jointPairs, hforall, hperm⟩ := hinit.pairs
    have hmade := (forall₂_of_initExtraJoints hjoints).length_eq
    have hlength := (hperm.symm.trans hstored.pairs).length_eq
    rw [filterMap_append_init, countP_append_init, hlast, hjoints, Option.getD_some,
      List.length_append, List.length_append, Nat.add_left_cancel_iff, List.length_flatten,
      List.map_replicate, List.sum_replicate, smul_eq_mul, ← hmade, ← hforall.length_eq] at hlength
    obtain hnil | hpos := Nat.eq_zero_or_pos (allExtraJoints bodies).length
    · exact .inr (List.length_eq_zero_iff.1 hnil)
    · exact .inl (Nat.eq_of_mul_eq_mul_right hpos (by omega)).ge
  · intro h before layout hbefore
    have hle := hbefore.sublist.countP_le (p := Call.isInitialize)
    rw [countP_append_init] at hle
    obtain ⟨htype, hone⟩ := h.resolve_left (by omega)
    obtain ⟨linkPairs, hjoints⟩ := exists_initExtraJoints_iff.2 htype
    obtain ⟨s, hs⟩ := exists_run (before ++ [.initializeSolver layout]) (.inr ⟨linkPairs, hjoints⟩)
    have hmade := forall₂_of_initExtraJoints hjoints
    obtain ⟨hpoints, hchecked⟩ := pointsToData_of_run hs
    refine ⟨s, hs, ⟨linkPairs, hmade.imp fun j p hp ↦ ?_, ?_⟩, hpoints, hchecked⟩
    · rw [hp]
      exact ⟨rfl, rfl, rfl⟩
    · have hpairs := (stored_run hs).pairs
      rw [filterMap_append_init, countP_append_init, hjoints, Option.getD_some] at hpairs
      obtain hone | hnil := hone
      · have hzero : before.countP Call.isInitialize = 0 := by omega
        rwa [hzero, List.replicate_one, List.flatten_singleton] at hpairs
      · rw [hnil, List.forall₂_nil_left_iff] at hmade
        rw [hmade] at hpairs ⊢
        simpa using hpairs

end Invariant

/-! ### Example -/

/-- A body of two links that a hinge joins a second time. -/
def twoBars : Bodies ℚ where
  links := [[⟨0, 0, "BAR1", 0⟩, ⟨0, 1, "BAR2", 1⟩]]
  extraJoints := fun _ ↦
    [⟨.EJ_XY, ![0, 0, 1], ![⟨0, 0, "BAR1", 0⟩, ⟨0, 1, "BAR2", 1⟩], ![![1, 0, 0], ![0, 1, 0]]⟩]
  isLink := by
    intro bodyIndex hbody j hj k
    obtain rfl := List.mem_singleton.1 hj
    obtain rfl := Nat.lt_one_iff.1 hbody
    fin_cases k <;> exact ⟨_, rfl, rfl⟩

/-- After the second initialization there are two pairs for the one hinge. -/
theorem not_initializesRightly_twoBars :
    ¬@InitializesRightly ℚ _ _ _ Simulator.addressOrder twoBars
      [.initializeSolver ⟨1, fun _ ↦ 2⟩, .initializeSolver ⟨1, fun _ ↦ 2⟩] := by
  intro h
  let _ := Simulator.addressOrder
  obtain ⟨s, hs, hinit⟩ := h [.initializeSolver ⟨1, fun _ ↦ 2⟩] ⟨1, fun _ ↦ 2⟩ List.prefix_rfl
  obtain ⟨jointPairs, hforall, hperm⟩ := hinit.pairs
  have hlength : jointPairs.length = 1 := hforall.length_eq.symm
  have htwo : (CFSImpl.run twoBars [.initializeSolver ⟨1, fun _ ↦ 2⟩,
      .initializeSolver ⟨1, fun _ ↦ 2⟩]).map (fun s ↦ s.extraJointLinkPairs.length) = some 2 := rfl
  have hcount := hperm.length_eq
  rw [List.length_map, List.length_append, hlength] at hcount
  rw [show CFSImpl.run twoBars [.initializeSolver ⟨1, fun _ ↦ 2⟩,
    .initializeSolver ⟨1, fun _ ↦ 2⟩] = some s from hs, Option.map_some, hcount] at htwo
  exact absurd htwo (by decide)

end OpenHRP.ConstraintForce
