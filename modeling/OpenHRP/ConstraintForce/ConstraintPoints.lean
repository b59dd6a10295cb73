import OpenHRP.ConstraintForce.ExtraJoints
import OpenHRP.Foundations.GreedyCover

/-!
# Constraint points

In every step of the simulation `setConstraintPoints` turns the collision points of the checked
pairs into contacts, and numbers the rows of the constraint problem: one for each contact, then one
for each constraint axis of the joints that close a loop, and in a numbering of their own the
friction forces of the contacts.

Of the points of a pair a greedy cover is kept, and the rows are numbered without gaps, the friction
rows of contact `k` being `2 * k` and `2 * k + 1` (`isThinnedAndNumbered_setConstraintPoints`).
Every direction of a point on one side is the opposite of that on the other
(`opposite_setConstraintPoints`).
-/

open Matrix

namespace OpenHRP.ConstraintForce

open GreedyCover

variable {ι K : Type*}

/-! ### What is read -/

/-- The links of the bodies. -/
structure Links (ι K : Type*) where
  link : ι → Link K
  isRoot : ι → Bool
  isCrawler : ι → Bool
  /-- Relative attitude of the link segment (self local). -/
  Rs : ι → Matrix33 K

/-- A `CollisionPoint`. -/
structure CollisionPoint (K : Type*) where
  position : Vector3 K
  normal : Vector3 K
  idepth : K

/-- A `collision_data` of the built-in collision detector. -/
structure CollisionData (K : Type*) where
  num_of_i_points : ℕ
  i_points : Fin 4 → Vector3 K
  i_point_new : Fin 4 → Bool
  n_vector : Vector3 K
  depth : K

/-- An entry of `collisionCheckLinkPairs`, with the points that `collisions` has for it and what its
`detectCollisions()` returns. -/
structure CheckedPair (ι K : Type*) where
  linkPair : LinkPair ι K
  points : List (CollisionPoint K)
  cdata : List (CollisionData K)

/-- The settings of a solver. -/
structure Settings (K : Type*) where
  useBuiltinCollisionDetector : Bool
  allowedPenetrationDepth : K

/-! ### Settings of the program -/

/-- `VEL_THRESH_OF_DYNAMIC_FRICTION`. -/
def velThreshOfDynamicFriction [Field K] : K :=
  1 / 10 ^ 4

/-- `ENABLE_STATIC_FRICTION`. -/
def enableStaticFriction : Bool :=
  true

/-- `ONLY_STATIC_FRICTION_FORMULATION`. -/
def onlyStaticFrictionFormulation : Bool :=
  true && enableStaticFriction

/-- `STATIC_FRICTION_BY_TWO_CONSTRAINTS`. -/
def staticFrictionByTwoConstraints : Bool :=
  true

/-! ### One contact -/

section Contact

variable [Field K] [LinearOrder K] [CMath K]

/-- The velocity of a link at a point. A root that is fixed does not move. -/
def pointVelocity (links : Links ι K) (l : ι) (point : Vector3 K) : Vector3 K :=
  if links.isRoot l && (links.link l).jointType = .fixedJoint then 0
  else (links.link l).vo + cross (links.link l).w point

/-- The velocity of the track of a crawler, in the direction in which side `k` of a contact is
carried. -/
def trackVelocity (links : Links ι K) (k : Fin 2) (l : ι) (normal : Vector3 K) : Vector3 K :=
  if links.isRoot l && (links.link l).jointType = .fixedJoint then 0
  else if links.isCrawler l then
    let axis := (links.link l).R *ᵥ (links.link l).a
    let dir := cross axis normal
    (links.link l).u • normalized (if k = 0 then dir else -dir)
  else 0

/-- The depth of a contact is cut down on a crawler that is not a fixed root. -/
def contactDepth (settings : Settings K) (links : Links ι K) (link : Fin 2 → ι) (depth : K) : K :=
  [0, 1].foldl (fun depth k ↦
    if links.isRoot (link k) && (links.link (link k)).jointType = .fixedJoint then depth
    else if links.isCrawler (link k) && settings.allowedPenetrationDepth * 2 < depth then
      settings.allowedPenetrationDepth * 2
    else depth) depth

/-- `setFrictionVectors`. The random base of the friction vectors is switched off in the program. -/
def setFrictionVectors (contact : ConstraintPoint K) : ConstraintPoint K :=
  let normal := contact.normalTowardInside 0
  let t1 := normalized (cross normal (minAxis normal))
  let t2 := normalized (cross normal t1)
  { contact with
    frictionVector :=
      if staticFrictionByTwoConstraints then
        ![![t1, -t1], ![t2, -t2], contact.frictionVector 2, contact.frictionVector 3]
      else ![![t1, -t1], ![t2, -t2], ![-t1, t1], ![-t2, t2]] }

/-- The end of `setContactConstraintPoints`: the friction of a contact. A friction coefficient that
is proportional to the velocity is switched off in the program. -/
def setFriction (muStatic muDynamic : K) (contact : ConstraintPoint K) : ConstraintPoint K :=
  let normal := contact.normalTowardInside 1
  let v_tangent :=
    contact.relVelocityOn0 - contact.normalProjectionOfRelVelocityOn0 • normal
  let vt_square := v_tangent ⬝ᵥ v_tangent
  let isSlipping : Bool := velThreshOfDynamicFriction * velThreshOfDynamicFriction < vt_square
  let contact := { contact with mu := if isSlipping then muDynamic else muStatic }
  if !onlyStaticFrictionFormulation && isSlipping then
    let t1 : Vector3 K := fun k ↦ v_tangent k / CMath.sqrt vt_square
    let t2 := cross normal t1
    let t3 := normalized (cross t2 normal)
    { contact with
      numFrictionVectors := 1
      frictionVector := Function.update contact.frictionVector 0 ![t3, -t3] }
  else if enableStaticFriction then
    setFrictionVectors
      { contact with numFrictionVectors := if staticFrictionByTwoConstraints then 2 else 4 }
  else { contact with numFrictionVectors := 0 }

/-- The part of the contact that is set before it is known to be kept. -/
def newContact (collision : CollisionPoint K) : ConstraintPoint K :=
  { ConstraintPoint.new with
    point := collision.position
    normalTowardInside := ![-collision.normal, collision.normal]
    depth := collision.idepth }

/-- The velocities at a contact that is kept. -/
def setVelocity (settings : Settings K) (links : Links ι K) (link : Fin 2 → ι)
    (contact : ConstraintPoint K) : ConstraintPoint K :=
  let normal := contact.normalTowardInside 1
  let v (k : Fin 2) := pointVelocity links (link k) contact.point +
    trackVelocity links k (link k) normal
  let relVelocityOn0 := v 1 - v 0
  { contact with
    depth := contactDepth settings links link contact.depth
    relVelocityOn0 := relVelocityOn0
    normalProjectionOfRelVelocityOn0 := normal ⬝ᵥ relVelocityOn0 }

/-! ### The contacts of a pair -/

/-- The numbers of rows so far, and whether a contact is an impact. -/
structure Counters where
  globalNumConstraintVectors : ℕ
  globalNumFrictionVectors : ℕ
  areThereImpacts : Bool

/-- A point that is nearer to another one than a positive threshold is culled. -/
def IsNeighborhood (culling_thresh : K) (point point' : Vector3 K) : Prop :=
  0 < culling_thresh ∧ Vector3.norm (point - point') < culling_thresh

instance (culling_thresh : K) : DecidableRel (IsNeighborhood culling_thresh) :=
  fun _ _ ↦ inferInstanceAs (Decidable (_ ∧ _))

/-- The contact of a collision point that is kept. -/
def makeContact (settings : Settings K) (links : Links ι K) (linkPair : LinkPair ι K)
    (counters : Counters) (collision : CollisionPoint K) : ConstraintPoint K :=
  let contact := setVelocity settings links linkPair.link
    { newContact collision with globalIndex := counters.globalNumConstraintVectors }
  setFriction linkPair.muStatic linkPair.muDynamic
    { contact with globalFrictionIndex := counters.globalNumFrictionVectors }

/-- The counters after a contact that is kept. -/
def Counters.next (counters : Counters) (contact : ConstraintPoint K) : Counters where
  globalNumConstraintVectors := counters.globalNumConstraintVectors + 1
  globalNumFrictionVectors := counters.globalNumFrictionVectors + contact.numFrictionVectors
  areThereImpacts := counters.areThereImpacts ||
    contact.normalProjectionOfRelVelocityOn0 < -(1 / 10 ^ 6)

/-- The body of the loop over the collision points of a pair. -/
def contactPointStep (settings : Settings K) (links : Links ι K) (linkPair : LinkPair ι K)
    (s : List (ConstraintPoint K) × Counters) (collision : CollisionPoint K) :
    List (ConstraintPoint K) × Counters :=
  if ∃ kept ∈ s.1, IsNeighborhood linkPair.culling_thresh kept.point collision.position then s
  else
    let contact := makeContact settings links linkPair s.2 collision
    (s.1 ++ [contact], s.2.next contact)

/-- `setContactConstraintPoints`: the contacts of the pair, and the counters after them. -/
def setContactConstraintPoints (settings : Settings K) (links : Links ι K)
    (linkPair : LinkPair ι K) (counters : Counters) (collisionPoints : List (CollisionPoint K)) :
    LinkPair ι K × Counters :=
  let s := collisionPoints.foldl (contactPointStep settings links linkPair) ([], counters)
  ({ linkPair with constraintPoints := s.1 }, s.2)

/-! ### The joints that close a loop -/

/-- `Link::attitude()`. -/
def Links.attitude (links : Links ι K) (l : ι) : Matrix33 K :=
  (links.link l).R * links.Rs l

/-- `setExtraJointConstraintPoints`: the pair, and the counters after it. -/
def setExtraJointConstraintPoints (links : Links ι K) (linkPair : ExtraJointLinkPair ι K)
    (counters : Counters) : ExtraJointLinkPair ι K × Counters :=
  let point (k : Fin 2) := (links.link (linkPair.link k)).p +
    links.attitude (linkPair.link k) *ᵥ linkPair.jointPoint k
  let v (k : Fin 2) := pointVelocity links (linkPair.link k) (point k)
  let relVelocityOn0 := v 1 - v 0
  let constraintPoints := linkPair.constraintPoints.mapIdx fun i constraint ↦
    let axis := links.attitude (linkPair.link 0) *ᵥ linkPair.jointConstraintAxes (Fin.ofNat 3 i)
    { constraint with
      point := point 1
      normalTowardInside := ![axis, -axis]
      depth := axis ⬝ᵥ (point 1 - point 0)
      globalIndex := counters.globalNumConstraintVectors + i
      normalProjectionOfRelVelocityOn0 := -axis ⬝ᵥ relVelocityOn0 }
  ({ linkPair with
      constraintPoints := constraintPoints
      frictionless := fun constraint h ↦ by
        obtain ⟨i, hi, rfl⟩ := List.mem_mapIdx.1 h
        exact linkPair.frictionless linkPair.constraintPoints[i] (List.getElem_mem hi) },
    { counters with
      globalNumConstraintVectors :=
        counters.globalNumConstraintVectors + linkPair.constraintPoints.length })

/-! ### All pairs -/

/-- What `setConstraintPoints` leaves: the counters, the number of contacts, and the constrained
pairs, with the points that it has set in them. -/
structure Constraints (ι K : Type*) where
  counters : Counters
  globalNumContactNormalVectors : ℕ
  constrainedLinkPairs : List (LinkPair ι K)

/-- The values that `solve` starts from. -/
def Constraints.start : Constraints ι K :=
  ⟨⟨0, 0, false⟩, 0, []⟩

/-- The points of what `detectCollisions()` returns: those that are marked as new. -/
def builtinPoints (cdata : List (CollisionData K)) : List (CollisionPoint K) :=
  cdata.flatMap fun cd ↦
    ((List.finRange 4).filter fun j ↦ j.val < cd.num_of_i_points ∧ cd.i_point_new j = true).map
      fun j ↦ ⟨cd.i_points j, cd.n_vector, cd.depth⟩

/-- The points that `pCollisionPoints` points to; the pointer is null when there are none. -/
def CheckedPair.collisionPoints (settings : Settings K) (pair : CheckedPair ι K) :
    List (CollisionPoint K) :=
  if settings.useBuiltinCollisionDetector then builtinPoints pair.cdata else pair.points

/-- The body of the loop over the checked pairs. -/
def checkedPairStep (settings : Settings K) (links : Links ι K) (s : Constraints ι K)
    (pair : CheckedPair ι K) : Constraints ι K :=
  match pair.collisionPoints settings with
  | [] => s
  | collisionPoints =>
    let set := setContactConstraintPoints settings links pair.linkPair s.counters collisionPoints
    { s with
      counters := set.2
      constrainedLinkPairs := s.constrainedLinkPairs ++ [set.1] }

/-- The body of the loop over the joints that close a loop. -/
def extraJointStep (links : Links ι K) (s : Constraints ι K)
    (linkPair : ExtraJointLinkPair ι K) : Constraints ι K :=
  let set := setExtraJointConstraintPoints links linkPair s.counters
  { s with
    counters := set.2
    constrainedLinkPairs := s.constrainedLinkPairs ++ [set.1.toLinkPair] }

def setConstraintPoints (settings : Settings K) (links : Links ι K)
    (collisionCheckLinkPairs : List (CheckedPair ι K))
    (extraJointLinkPairs : List (ExtraJointLinkPair ι K)) : Constraints ι K :=
  let s := collisionCheckLinkPairs.foldl (checkedPairStep settings links) Constraints.start
  let s := { s with globalNumContactNormalVectors := s.counters.globalNumConstraintVectors }
  extraJointLinkPairs.foldl (extraJointStep links) s

/-! ### A contact that is kept -/

variable {settings : Settings K} {links : Links ι K}

section Frame

variable (muStatic muDynamic : K) (contact : ConstraintPoint K)

@[simp]
theorem setFriction_point : (setFriction muStatic muDynamic contact).point = contact.point := by
  rw [setFriction]
  dsimp only
  split_ifs <;> rfl

@[simp]
theorem setFriction_globalIndex :
    (setFriction muStatic muDynamic contact).globalIndex = contact.globalIndex := by
  rw [setFriction]
  dsimp only
  split_ifs <;> rfl

@[simp]
theorem setFriction_globalFrictionIndex :
    (setFriction muStatic muDynamic contact).globalFrictionIndex =
      contact.globalFrictionIndex := by
  rw [setFriction]
  dsimp only
  split_ifs <;> rfl

@[simp]
theorem setFriction_normalTowardInside :
    (setFriction muStatic muDynamic contact).normalTowardInside = contact.normalTowardInside := by
  rw [setFriction]
  dsimp only
  split_ifs <;> rfl

/-- With the settings of the program every contact has two friction vectors. -/
@[simp]
theorem setFriction_numFrictionVectors :
    (setFriction muStatic muDynamic contact).numFrictionVectors = 2 := by
  rw [setFriction]
  rfl

end Frame

/-- The directions of a point on its two sides are opposite. -/
structure Opposite (constraint : ConstraintPoint K) : Prop where
  normal : constraint.normalTowardInside 1 = -constraint.normalTowardInside 0
  friction : ∀ j : Fin 4, j.val < constraint.numFrictionVectors →
    constraint.frictionVector j 1 = -constraint.frictionVector j 0

theorem setFrictionVectors_frictionVector (contact : ConstraintPoint K) (j : Fin 4)
    (hj : j.val < if staticFrictionByTwoConstraints then 2 else 4) :
    (setFrictionVectors contact).frictionVector j 1 =
      -(setFrictionVectors contact).frictionVector j 0 := by
  rw [setFrictionVectors]
  dsimp only
  by_cases h : staticFrictionByTwoConstraints = true
  · rw [if_pos h] at hj ⊢
    match j with
    | 0 | 1 => rfl
    | 2 | 3 => exact absurd hj (by decide)
  · rw [if_neg h]
    match j with
    | 0 | 1 => rfl
    | 2 | 3 => exact (neg_neg _).symm

/-- The friction vectors are opposite with every setting of the program. -/
theorem setFriction_frictionVector (muStatic muDynamic : K) (contact : ConstraintPoint K)
    (j : Fin 4) (hj : j.val < (setFriction muStatic muDynamic contact).numFrictionVectors) :
    (setFriction muStatic muDynamic contact).frictionVector j 1 =
      -(setFriction muStatic muDynamic contact).frictionVector j 0 := by
  revert hj
  rw [setFriction]
  dsimp only
  split
  · intro hj
    obtain rfl : j = 0 := Fin.ext (Nat.lt_one_iff.1 hj)
    simp
  · split
    · exact setFrictionVectors_frictionVector _ j
    · exact fun hj ↦ absurd hj (Nat.not_lt_zero _)

variable (linkPair : LinkPair ι K) (counters : Counters)

theorem opposite_makeContact (collision : CollisionPoint K) :
    Opposite (makeContact settings links linkPair counters collision) where
  normal := by
    rw [makeContact, setFriction_normalTowardInside]
    exact (neg_neg collision.normal).symm
  friction := setFriction_frictionVector _ _ _

theorem makeContact_point (collision : CollisionPoint K) :
    (makeContact settings links linkPair counters collision).point = collision.position :=
  setFriction_point _ _ _

/-! ### The contacts that are kept -/

theorem contactPointStep_point (s : List (ConstraintPoint K) × Counters)
    (collision : CollisionPoint K) :
    (contactPointStep settings links linkPair s collision).1.map ConstraintPoint.point =
      keep (IsNeighborhood linkPair.culling_thresh) (s.1.map ConstraintPoint.point)
        collision.position := by
  have hiff : (∃ point ∈ s.1.map ConstraintPoint.point,
        IsNeighborhood linkPair.culling_thresh point collision.position) ↔
      ∃ kept ∈ s.1, IsNeighborhood linkPair.culling_thresh kept.point collision.position := by
    simp
  by_cases h : ∃ kept ∈ s.1, IsNeighborhood linkPair.culling_thresh kept.point collision.position
  · rw [contactPointStep, if_pos h, keep_of_near (hiff.2 h)]
  · rw [contactPointStep, if_neg h, keep_of_not_near (fun hn ↦ h (hiff.1 hn)), List.map_append,
      List.map_singleton, makeContact_point]

theorem setContactConstraintPoints_point (collisionPoints : List (CollisionPoint K)) :
    (setContactConstraintPoints settings links linkPair counters
        collisionPoints).1.constraintPoints.map ConstraintPoint.point =
      select (IsNeighborhood linkPair.culling_thresh)
        (collisionPoints.map CollisionPoint.position) := by
  rw [setContactConstraintPoints]
  dsimp only
  induction collisionPoints using List.reverseRecOn with
  | nil => rfl
  | append_singleton collisionPoints collision ih =>
    rw [List.foldl_append, List.foldl_cons, List.foldl_nil, contactPointStep_point, ih,
      List.map_append, List.map_singleton, select_append]

/-- The points that are kept of a list of collision points: their numbers increase, they are
separated by a positive threshold, and every other point is nearer to one of them than that. -/
structure IsThinned (culling_thresh : K) (points : List (CollisionPoint K))
    (kept : List (ConstraintPoint K)) (numbers : List (Fin points.length)) : Prop where
  increasing : numbers.Pairwise (· < ·)
  point : kept.map ConstraintPoint.point = numbers.map fun i ↦ points[i].position
  separated : 0 < culling_thresh → numbers.Pairwise fun i j ↦
    culling_thresh ≤ Vector3.norm (points[i].position - points[j].position)
  covering : ∀ j ∉ numbers, ∃ i ∈ numbers,
    Vector3.norm (points[i].position - points[j].position) < culling_thresh

theorem isThinned_setContactConstraintPoints (points : List (CollisionPoint K)) :
    ∃ numbers, IsThinned linkPair.culling_thresh points (setContactConstraintPoints settings links
      linkPair counters points).1.constraintPoints numbers := by
  let near (i j : Fin points.length) : Prop :=
    IsNeighborhood linkPair.culling_thresh points[i].position points[j].position
  have hpoints : points.map CollisionPoint.position =
      (List.finRange points.length).map fun i ↦ points[i].position := by
    conv_lhs => rw [← List.map_getElem_finRange points]
    rw [List.map_map]
    rfl
  refine ⟨select near (List.finRange points.length), ?_, ?_, fun hpos ↦ ?_, fun j hj ↦ ?_⟩
  · exact (List.pairwise_lt_finRange _).sublist (select_sublist _)
  · rw [setContactConstraintPoints_point, hpoints, select_map]
  · exact (pairwise_select _).imp fun h ↦ not_lt.1 fun hlt ↦ h ⟨hpos, hlt⟩
  · have hcover : j ∈ select near (List.finRange points.length) ∨
        ∃ i ∈ select near (List.finRange points.length), near i j :=
      mem_select_or_near (List.mem_finRange j)
    obtain h | ⟨i, hi, hnear⟩ := hcover
    · exact absurd h hj
    · exact ⟨i, hi, hnear.2⟩

/-! ### The numbers of the rows -/

/-- The constraint points of some pairs. -/
def pointsOf (linkPairs : List (LinkPair ι K)) : List (ConstraintPoint K) :=
  linkPairs.flatMap LinkPair.constraintPoints

/-- The contacts so far and the counters: row `k` belongs to contact `k`, and so do the friction
rows `2 * k` and `2 * k + 1`. -/
structure Numbered (contacts : List (ConstraintPoint K)) (counters : Counters) : Prop where
  length : contacts.length = counters.globalNumConstraintVectors
  globalIndex : contacts.map ConstraintPoint.globalIndex = List.range contacts.length
  friction :
    contacts.map (fun contact ↦ (contact.globalFrictionIndex, contact.numFrictionVectors)) =
    (List.range contacts.length).map fun k ↦ (2 * k, 2)
  total : counters.globalNumFrictionVectors = 2 * contacts.length

theorem Numbered.makeContact {contacts : List (ConstraintPoint K)} {counters : Counters}
    (h : Numbered contacts counters) (linkPair : LinkPair ι K) (collision : CollisionPoint K) :
    Numbered (contacts ++ [makeContact settings links linkPair counters collision])
      (counters.next (makeContact settings links linkPair counters collision)) := by
  have hindex : (ConstraintForce.makeContact settings links linkPair counters
      collision).globalIndex = counters.globalNumConstraintVectors := setFriction_globalIndex _ _ _
  have hfriction : (ConstraintForce.makeContact settings links linkPair counters
      collision).globalFrictionIndex = counters.globalNumFrictionVectors :=
    setFriction_globalFrictionIndex _ _ _
  have hnum : (ConstraintForce.makeContact settings links linkPair counters
      collision).numFrictionVectors = 2 := setFriction_numFrictionVectors _ _ _
  constructor
  · rw [List.length_append, h.length]
    rfl
  · rw [List.map_append, List.length_append, List.length_singleton, List.range_succ,
      h.globalIndex, List.map_singleton, hindex, h.length]
  · rw [List.map_append, List.length_append, List.length_singleton, List.range_succ,
      List.map_append, h.friction, List.map_singleton, List.map_singleton, hfriction, hnum, h.total]
  · rw [Counters.next, hnum, h.total, List.length_append, List.length_singleton, Nat.mul_succ]

/-- A pair's contacts go on from those of the pairs before it. -/
theorem Numbered.setContactConstraintPoints {contacts : List (ConstraintPoint K)}
    {counters : Counters} (h : Numbered contacts counters) (linkPair : LinkPair ι K)
    (collisionPoints : List (CollisionPoint K)) :
    let set := setContactConstraintPoints settings links linkPair counters collisionPoints
    Numbered (contacts ++ set.1.constraintPoints) set.2 := by
  rw [ConstraintForce.setContactConstraintPoints]
  dsimp only
  induction collisionPoints using List.reverseRecOn with
  | nil => simpa using h
  | append_singleton collisionPoints collision ih =>
    rw [List.foldl_append, List.foldl_cons, List.foldl_nil, contactPointStep]
    split
    · exact ih
    · rw [← List.append_assoc]
      exact ih.makeContact linkPair collision

theorem opposite_setContactConstraintPoints (collisionPoints : List (CollisionPoint K)) :
    ∀ constraint ∈ (setContactConstraintPoints settings links linkPair counters
      collisionPoints).1.constraintPoints, Opposite constraint := by
  rw [setContactConstraintPoints]
  dsimp only
  induction collisionPoints using List.reverseRecOn with
  | nil => exact nofun
  | append_singleton collisionPoints collision ih =>
    rw [List.foldl_append, List.foldl_cons, List.foldl_nil, contactPointStep]
    split
    · exact ih
    · intro constraint hmem
      obtain hmem | hmem := List.mem_append.1 hmem
      · exact ih constraint hmem
      · rw [List.mem_singleton.1 hmem]
        exact opposite_makeContact linkPair _ collision

section

omit [Field K] [LinearOrder K] [CMath K]

theorem pointsOf_append (linkPairs linkPairs' : List (LinkPair ι K)) :
    pointsOf (linkPairs ++ linkPairs') = pointsOf linkPairs ++ pointsOf linkPairs' :=
  List.flatMap_append

theorem pointsOf_singleton : pointsOf [linkPair] = linkPair.constraintPoints :=
  List.flatMap_singleton _ _

end

/-- The pair has the contacts that are kept of the collision points of a checked pair. -/
def IsThinnedPair (settings : Settings K) (pair : CheckedPair ι K) (linkPair : LinkPair ι K) :
    Prop :=
  linkPair.link = pair.linkPair.link ∧ ∃ numbers,
    IsThinned pair.linkPair.culling_thresh (pair.collisionPoints settings)
      linkPair.constraintPoints numbers

/-- The state in the loop over the checked pairs, after those in `checked`. -/
structure AfterChecked (settings : Settings K) (checked : List (CheckedPair ι K))
    (s : Constraints ι K) : Prop where
  numbered : Numbered (pointsOf s.constrainedLinkPairs) s.counters
  thinned : List.Forall₂ (IsThinnedPair settings)
    (checked.filter fun pair ↦ !(pair.collisionPoints settings).isEmpty) s.constrainedLinkPairs
  opposite : ∀ constraint ∈ pointsOf s.constrainedLinkPairs, Opposite constraint

theorem AfterChecked.step {checked : List (CheckedPair ι K)} {s : Constraints ι K}
    (h : AfterChecked settings checked s) (pair : CheckedPair ι K) :
    AfterChecked settings (checked ++ [pair]) (checkedPairStep settings links s pair) := by
  cases hpoints : pair.collisionPoints settings with
  | nil =>
    rw [checkedPairStep, hpoints]
    exact { h with thinned := by simpa [hpoints] using h.thinned }
  | cons collision rest =>
    rw [checkedPairStep, hpoints]
    refine ⟨?_, ?_, fun constraint hmem ↦ ?_⟩
    · dsimp only
      rw [pointsOf_append, pointsOf_singleton]
      exact h.numbered.setContactConstraintPoints _ _
    · have hthinned : IsThinnedPair settings pair (setContactConstraintPoints settings links
          pair.linkPair s.counters (collision :: rest)).1 := by
        refine ⟨rfl, ?_⟩
        rw [hpoints]
        exact isThinned_setContactConstraintPoints _ _ _
      rw [List.filter_append, List.filter_singleton, hpoints]
      exact List.rel_append h.thinned (.cons hthinned .nil)
    · dsimp only at hmem
      rw [pointsOf_append, pointsOf_singleton] at hmem
      obtain hmem | hmem := List.mem_append.1 hmem
      · exact h.opposite constraint hmem
      · exact opposite_setContactConstraintPoints _ _ _ constraint hmem

theorem afterChecked_foldl (checked : List (CheckedPair ι K)) :
    AfterChecked settings checked (checked.foldl (checkedPairStep settings links) .start) := by
  induction checked using List.reverseRecOn with
  | nil => exact ⟨⟨rfl, rfl, rfl, rfl⟩, .nil, nofun⟩
  | append_singleton checked pair ih =>
    rw [List.foldl_append]
    exact ih.step pair

/-- The pair has a constraint point for each constraint axis of a joint. -/
def IsSetJoint (joint : ExtraJointLinkPair ι K) (linkPair : LinkPair ι K) : Prop :=
  linkPair.link = joint.link ∧ linkPair.constraintPoints.length = joint.constraintPoints.length

/-- The state in the loop over the joints, which started from `s₀` and has set `jointPairs` for the
joints in `joints`. -/
structure AfterJoints (s₀ s : Constraints ι K) (joints : List (ExtraJointLinkPair ι K))
    (jointPairs : List (LinkPair ι K)) : Prop where
  joints : List.Forall₂ IsSetJoint joints jointPairs
  constrainedLinkPairs : s.constrainedLinkPairs = s₀.constrainedLinkPairs ++ jointPairs
  contacts : s.globalNumContactNormalVectors = s₀.globalNumContactNormalVectors
  friction : s.counters.globalNumFrictionVectors = s₀.counters.globalNumFrictionVectors
  length : s.counters.globalNumConstraintVectors =
    s₀.counters.globalNumConstraintVectors + (pointsOf jointPairs).length
  globalIndex : (pointsOf jointPairs).map ConstraintPoint.globalIndex =
    List.range' s₀.counters.globalNumConstraintVectors (pointsOf jointPairs).length
  frictionless : ∀ constraint ∈ pointsOf jointPairs, constraint.numFrictionVectors = 0
  opposite : ∀ constraint ∈ pointsOf jointPairs, Opposite constraint

section

omit [LinearOrder K] [CMath K]

theorem setExtraJointConstraintPoints_globalIndex (linkPair : ExtraJointLinkPair ι K)
    (counters : Counters) :
    (setExtraJointConstraintPoints links linkPair counters).1.constraintPoints.map
        ConstraintPoint.globalIndex =
      List.range' counters.globalNumConstraintVectors linkPair.constraintPoints.length := by
  refine List.ext_getElem ?_ fun i hi hi' ↦ ?_
  · simp [setExtraJointConstraintPoints]
  · simp [setExtraJointConstraintPoints]

theorem length_setExtraJointConstraintPoints (linkPair : ExtraJointLinkPair ι K)
    (counters : Counters) :
    (setExtraJointConstraintPoints links linkPair counters).1.constraintPoints.length =
      linkPair.constraintPoints.length :=
  List.length_mapIdx

theorem opposite_setExtraJointConstraintPoints (linkPair : ExtraJointLinkPair ι K)
    (counters : Counters) :
    ∀ constraint ∈ (setExtraJointConstraintPoints links linkPair counters).1.constraintPoints,
      Opposite constraint := by
  intro constraint hmem
  have hnone := (setExtraJointConstraintPoints links linkPair counters).1.frictionless
    constraint hmem
  refine ⟨?_, fun j hj ↦ ?_⟩
  · obtain ⟨i, hi, rfl⟩ := List.mem_mapIdx.1 hmem
    rfl
  · rw [hnone] at hj
    exact absurd hj (Nat.not_lt_zero _)

theorem AfterJoints.step {s₀ s : Constraints ι K} {joints : List (ExtraJointLinkPair ι K)}
    {jointPairs : List (LinkPair ι K)} (h : AfterJoints s₀ s joints jointPairs)
    (linkPair : ExtraJointLinkPair ι K) :
    AfterJoints s₀ (extraJointStep links s linkPair) (joints ++ [linkPair])
      (jointPairs ++ [(setExtraJointConstraintPoints links linkPair s.counters).1.toLinkPair]) := by
  have hlength : (setExtraJointConstraintPoints links linkPair
      s.counters).1.constraintPoints.length = linkPair.constraintPoints.length :=
    length_setExtraJointConstraintPoints linkPair s.counters
  constructor
  · exact List.rel_append h.joints (.cons ⟨rfl, hlength⟩ .nil)
  · rw [extraJointStep, h.constrainedLinkPairs, List.append_assoc]
  · exact h.contacts
  · exact h.friction
  · rw [pointsOf_append, pointsOf_singleton, List.length_append, hlength, ← Nat.add_assoc,
      ← h.length]
    rfl
  · rw [pointsOf_append, pointsOf_singleton, List.map_append, List.length_append, h.globalIndex,
      setExtraJointConstraintPoints_globalIndex, h.length, hlength, List.range'_append_1]
  · rw [pointsOf_append, pointsOf_singleton]
    intro constraint hmem
    obtain hmem | hmem := List.mem_append.1 hmem
    · exact h.frictionless constraint hmem
    · exact (setExtraJointConstraintPoints links linkPair s.counters).1.frictionless
        constraint hmem
  · rw [pointsOf_append, pointsOf_singleton]
    intro constraint hmem
    obtain hmem | hmem := List.mem_append.1 hmem
    · exact h.opposite constraint hmem
    · exact opposite_setExtraJointConstraintPoints linkPair s.counters constraint hmem

theorem afterJoints_foldl (links : Links ι K) (s₀ : Constraints ι K)
    (joints : List (ExtraJointLinkPair ι K)) :
    ∃ jointPairs, AfterJoints s₀ (joints.foldl (extraJointStep links) s₀) joints jointPairs := by
  induction joints using List.reverseRecOn with
  | nil => exact ⟨[], ⟨.nil, (List.append_nil _).symm, rfl, rfl, rfl, rfl, nofun, nofun⟩⟩
  | append_singleton joints linkPair ih =>
    obtain ⟨jointPairs, ih⟩ := ih
    rw [List.foldl_append]
    exact ⟨_, ih.step linkPair⟩

end

/-! ### All rows -/

/-- The points of the checked pairs are thinned out, and the rows are numbered without gaps: first
the contacts, then the axes of the joints; the friction rows of contact `k` are `2 * k` and
`2 * k + 1`. -/
structure IsThinnedAndNumbered (settings : Settings K) (checked : List (CheckedPair ι K))
    (joints : List (ExtraJointLinkPair ι K)) (s : Constraints ι K)
    (contactPairs jointPairs : List (LinkPair ι K)) : Prop where
  constrainedLinkPairs : s.constrainedLinkPairs = contactPairs ++ jointPairs
  joints : List.Forall₂ IsSetJoint joints jointPairs
  thinned : List.Forall₂ (IsThinnedPair settings)
    (checked.filter fun pair ↦ !(pair.collisionPoints settings).isEmpty) contactPairs
  globalIndex : (pointsOf s.constrainedLinkPairs).map ConstraintPoint.globalIndex =
    List.range s.counters.globalNumConstraintVectors
  contactIndex : (pointsOf contactPairs).map ConstraintPoint.globalIndex =
    List.range s.globalNumContactNormalVectors
  frictionIndex : (pointsOf contactPairs).map
      (fun contact ↦ (contact.globalFrictionIndex, contact.numFrictionVectors)) =
    (List.range s.globalNumContactNormalVectors).map fun k ↦ (2 * k, 2)
  frictionRows : (pointsOf s.constrainedLinkPairs).flatMap
      (fun point ↦ List.range' point.globalFrictionIndex point.numFrictionVectors) =
    List.range s.counters.globalNumFrictionVectors

/-- Ranges of two, one after the other. -/
theorem flatMap_range'_two (n : ℕ) :
    (List.range n).flatMap (fun k ↦ List.range' (2 * k) 2) = List.range (2 * n) := by
  induction n with
  | zero => rfl
  | succ n ih =>
    rw [List.range_succ, List.flatMap_append, ih, List.flatMap_singleton, Nat.mul_succ,
      List.range_eq_range', List.range_eq_range', ← List.range'_append_1, Nat.zero_add]

/-- `setConstraintPoints` keeps a separated cover of the points of every pair, and numbers the rows
without gaps. -/
theorem isThinnedAndNumbered_setConstraintPoints (settings : Settings K) (links : Links ι K)
    (collisionCheckLinkPairs : List (CheckedPair ι K))
    (extraJointLinkPairs : List (ExtraJointLinkPair ι K)) :
    ∃ contactPairs jointPairs, IsThinnedAndNumbered settings collisionCheckLinkPairs
      extraJointLinkPairs
      (setConstraintPoints settings links collisionCheckLinkPairs extraJointLinkPairs)
      contactPairs jointPairs := by
  have hchecked : AfterChecked settings collisionCheckLinkPairs
      (collisionCheckLinkPairs.foldl (checkedPairStep settings links) .start) :=
    afterChecked_foldl collisionCheckLinkPairs
  rw [setConstraintPoints]
  generalize collisionCheckLinkPairs.foldl (checkedPairStep settings links) .start = s₀ at hchecked
  obtain ⟨hlength, hindex, hfriction, htotal⟩ := hchecked.numbered
  obtain ⟨jointPairs, h⟩ := afterJoints_foldl links
    { s₀ with globalNumContactNormalVectors := s₀.counters.globalNumConstraintVectors }
    extraJointLinkPairs
  refine ⟨s₀.constrainedLinkPairs, jointPairs, h.constrainedLinkPairs, h.joints, hchecked.thinned,
    ?_, ?_, ?_, ?_⟩
  · rw [h.constrainedLinkPairs, pointsOf_append, List.map_append, h.globalIndex, hindex, h.length,
      hlength, List.range_eq_range', List.range_eq_range', ← List.range'_append_1, Nat.zero_add]
  · rw [h.contacts, hindex, hlength]
  · rw [h.contacts, hfriction, hlength]
  · have hjoints : (pointsOf jointPairs).flatMap
        (fun point ↦ List.range' point.globalFrictionIndex point.numFrictionVectors) = [] := by
      refine List.flatMap_eq_nil_iff.2 fun point hpoint ↦ ?_
      rw [h.frictionless point hpoint, List.range'_zero]
    have hcontacts : (pointsOf s₀.constrainedLinkPairs).flatMap
        (fun point ↦ List.range' point.globalFrictionIndex point.numFrictionVectors) =
        ((pointsOf s₀.constrainedLinkPairs).map
          fun contact ↦ (contact.globalFrictionIndex, contact.numFrictionVectors)).flatMap
            fun rows ↦ List.range' rows.1 rows.2 := by
      rw [List.flatMap_map]
    rw [h.constrainedLinkPairs, pointsOf_append, List.flatMap_append, hjoints, List.append_nil,
      hcontacts, hfriction, List.flatMap_map, flatMap_range'_two, h.friction, htotal]

/-- The directions of all constraint points are opposite on the two sides. -/
theorem opposite_setConstraintPoints (settings : Settings K) (links : Links ι K)
    (collisionCheckLinkPairs : List (CheckedPair ι K))
    (extraJointLinkPairs : List (ExtraJointLinkPair ι K)) :
    ∀ constraint ∈ pointsOf (setConstraintPoints settings links collisionCheckLinkPairs
      extraJointLinkPairs).constrainedLinkPairs, Opposite constraint := by
  have hchecked : AfterChecked settings collisionCheckLinkPairs
      (collisionCheckLinkPairs.foldl (checkedPairStep settings links) .start) :=
    afterChecked_foldl collisionCheckLinkPairs
  rw [setConstraintPoints]
  obtain ⟨jointPairs, h⟩ := afterJoints_foldl links
    { collisionCheckLinkPairs.foldl (checkedPairStep settings links) .start with
      globalNumContactNormalVectors := (collisionCheckLinkPairs.foldl
        (checkedPairStep settings links) .start).counters.globalNumConstraintVectors }
    extraJointLinkPairs
  rw [h.constrainedLinkPairs, pointsOf_append]
  intro constraint hmem
  obtain hmem | hmem := List.mem_append.1 hmem
  · exact hchecked.opposite constraint hmem
  · exact h.opposite constraint hmem

end Contact

end OpenHRP.ConstraintForce
