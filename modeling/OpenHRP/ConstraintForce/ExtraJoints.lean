import OpenHRP.Model.RealMath

/-!
# Joints that close a loop

A joint between two links that the tree of links does not know is a pair of links with up to three
constraint points, each with an axis along which the points of the two links must not move apart.
The solver builds such a pair in two functions: `addExtraJoint`, which the simulator calls, and
`initExtraJoints`, for the extra joints that a body has of its own.

The axes are the same in both. But `initExtraJoints` makes a pair for the type `EJ_XY` only and
writes through a null pointer for the two other types; and `addExtraJoint` marks every pair as one
of different bodies (`registersAlike_iff`).
-/

open Matrix

namespace OpenHRP.ConstraintForce

variable {ι K : Type*}

/-! ### Pairs of links -/

/-- `CFSImpl::ConstraintPoint`. -/
structure ConstraintPoint (K : Type*) where
  globalIndex : ℕ
  point : Vector3 K
  normalTowardInside : Fin 2 → Vector3 K
  normalProjectionOfRelVelocityOn0 : K
  /-- Position error in the case of a connection point. -/
  depth : K
  mu : K
  relVelocityOn0 : Vector3 K
  globalFrictionIndex : ℕ
  numFrictionVectors : ℕ
  frictionVector : Fin 4 → Fin 2 → Vector3 K

/-- `ConstraintPoint()`. -/
def ConstraintPoint.new [Zero K] : ConstraintPoint K where
  globalIndex := 0
  point := 0
  normalTowardInside := 0
  normalProjectionOfRelVelocityOn0 := 0
  depth := 0
  mu := 0
  relVelocityOn0 := 0
  globalFrictionIndex := 0
  numFrictionVectors := 0
  frictionVector := 0

/-- An element of a vector: the storage of the vector, and the position in it. -/
structure Address where
  storage : ℕ
  position : ℕ
  deriving DecidableEq

/-- `CFSImpl::LinkPair`. The pointers are null until the solver is initialized. -/
structure LinkPair (ι K : Type*) where
  index : ℕ
  isSameBodyPair : Bool
  bodyIndex : Fin 2 → ℕ
  bodyData : Fin 2 → Option Address
  link : Fin 2 → ι
  linkData : Fin 2 → Option Address
  constraintPoints : List (ConstraintPoint K)
  isNonContactConstraint : Bool
  muStatic : K
  muDynamic : K
  culling_thresh : K
  restitution : K
  epsilon : K

/-- `CFSImpl::ExtraJointLinkPair`. Its points have no friction. -/
structure ExtraJointLinkPair (ι K : Type*) extends LinkPair ι K where
  jointPoint : Fin 2 → Vector3 K
  jointConstraintAxes : Fin 3 → Vector3 K
  frictionless : ∀ constraint ∈ constraintPoints, constraint.numFrictionVectors = 0

/-- `Body::ExtraJointType`. -/
inductive ExtraJointType
  | EJ_XYZ
  | EJ_XY
  | EJ_Z
  deriving DecidableEq

/-- The number that stands for a type. -/
def ExtraJointType.toShort : ExtraJointType → ℤ
  | EJ_XYZ => 0
  | EJ_XY => 1
  | EJ_Z => 2

/-- `Body::ExtraJoint`. -/
structure ExtraJoint (ι K : Type*) where
  type : ExtraJointType
  axis : Vector3 K
  link : Fin 2 → ι
  point : Fin 2 → Vector3 K

/-! ### The constraint axes -/

section Axes

variable [Field K] [LinearOrder K] [CMath K]

/-- `normalized()`. -/
def normalized (v : Vector3 K) : Vector3 K :=
  fun k ↦ v k / Vector3.norm v

/-- The component of the least magnitude. -/
def minElem (axis : Vector3 K) : Fin 3 :=
  [1, 2].foldl (fun minElem k ↦ if |axis k| < |axis minElem| then k else minElem) 0

/-- The unit vector `u` of the component of the least magnitude. -/
def minAxis (axis : Vector3 K) : Vector3 K :=
  Pi.single (minElem axis) 1

/-- The two vectors orthogonal to the joint axis. -/
def axesXY (axis : Vector3 K) : Fin 3 → Vector3 K :=
  let t1 := normalized (cross axis (minAxis axis))
  ![t1, normalized (cross axis t1), 0]

def axesXYZ : Fin 3 → Vector3 K :=
  ![![1, 0, 0], ![0, 1, 0], ![0, 0, 1]]

def axesZ (axis : Vector3 K) : Fin 3 → Vector3 K :=
  ![axis, 0, 0]

/-- `numeric_limits<int>::max()`. -/
def intMax : ℕ :=
  2 ^ 31 - 1

/-- `constraintPoints.resize(n)` for a new pair, and its axes. -/
def ExtraJointLinkPair.setAxes (linkPair : ExtraJointLinkPair ι K) (n : ℕ)
    (axes : Fin 3 → Vector3 K) : ExtraJointLinkPair ι K :=
  { linkPair with
    constraintPoints := List.replicate n ConstraintPoint.new
    jointConstraintAxes := axes
    frictionless := fun _ h ↦ by rw [List.eq_of_mem_replicate h, ConstraintPoint.new] }

/-- The common end of both functions: the points have no friction, and the links are set. -/
def ExtraJointLinkPair.connect (linkPair : ExtraJointLinkPair ι K) (bodyIndex : Fin 2 → ℕ)
    (link : Fin 2 → ι) (point : Fin 2 → Vector3 K) : ExtraJointLinkPair ι K :=
  { linkPair with
    constraintPoints := linkPair.constraintPoints.map fun constraint ↦
      { constraint with numFrictionVectors := 0, globalFrictionIndex := intMax }
    bodyIndex := bodyIndex
    link := link
    jointPoint := point
    frictionless := by simp }

/-- `new ExtraJointLinkPair()` between `link 0` and `link 1`, with its two flags. -/
def ExtraJointLinkPair.new (link : Fin 2 → ι) (isSameBodyPair isNonContactConstraint : Bool) :
    ExtraJointLinkPair ι K where
  index := 0
  isSameBodyPair := isSameBodyPair
  bodyIndex := 0
  bodyData := fun _ ↦ none
  link := link
  linkData := fun _ ↦ none
  constraintPoints := []
  isNonContactConstraint := isNonContactConstraint
  muStatic := 0
  muDynamic := 0
  culling_thresh := 0
  restitution := 0
  epsilon := 0
  jointPoint := 0
  jointConstraintAxes := 0
  frictionless := nofun

/-- The pair that `addExtraJoint` registers. -/
def addExtraJoint (bodyIndex1 : ℕ) (link1 : ι) (bodyIndex2 : ℕ) (link2 : ι)
    (link1LocalPos link2LocalPos : Vector3 K) (jointType : ℤ) (jointAxis : Vector3 K) :
    ExtraJointLinkPair ι K :=
  let linkPair := ExtraJointLinkPair.new ![link1, link2] false true
  let linkPair :=
    if jointType = ExtraJointType.EJ_XY.toShort then linkPair.setAxes 2 (axesXY jointAxis)
    else if jointType = ExtraJointType.EJ_XYZ.toShort then linkPair.setAxes 3 axesXYZ
    else if jointType = ExtraJointType.EJ_Z.toShort then linkPair.setAxes 1 (axesZ jointAxis)
    else linkPair
  linkPair.connect ![bodyIndex1, bodyIndex2] ![link1, link2] ![link1LocalPos, link2LocalPos]

/-- The pair that `initExtraJoints` registers for an extra joint of a body; `none` when it writes
through a null pointer. -/
def initExtraJoint (bodyIndex : ℕ) (bodyExtraJoint : ExtraJoint ι K) :
    Option (ExtraJointLinkPair ι K) :=
  let linkPair : Option (ExtraJointLinkPair ι K) := none
  let linkPair : Option (ExtraJointLinkPair ι K) := match bodyExtraJoint.type with
    | .EJ_XY =>
      some ((ExtraJointLinkPair.new bodyExtraJoint.link true true).setAxes 2
        (axesXY bodyExtraJoint.axis))
    | .EJ_XYZ => linkPair.map (·.setAxes 3 axesXYZ)
    | .EJ_Z => linkPair.map (·.setAxes 1 (axesZ bodyExtraJoint.axis))
  linkPair.map (·.connect (fun _ ↦ bodyIndex) bodyExtraJoint.link bodyExtraJoint.point)

end Axes

/-! ### The two vectors orthogonal to the joint axis -/

section Orthogonal

theorem abs_minElem_le [Field K] [LinearOrder K] (axis : Vector3 K) (k : Fin 3) :
    |axis (minElem axis)| ≤ |axis k| := by
  simp only [minElem, List.foldl_cons, List.foldl_nil]
  match k with
  | 0 | 1 | 2 => split_ifs <;> order

/-- The vector of the least component is not parallel to the axis. -/
theorem cross_minAxis_ne_zero {axis : Vector3 ℝ} (h : axis ≠ 0) :
    cross axis (minAxis axis) ≠ 0 := by
  intro hzero
  have hmin := abs_minElem_le axis
  have hparallel (k : Fin 3) (hk : k ≠ minElem axis) : axis k = 0 := by
    have h0 := congrFun hzero 0
    have h1 := congrFun hzero 1
    have h2 := congrFun hzero 2
    simp only [cross, minAxis, cross_apply] at h0 h1 h2
    generalize minElem axis = m at h0 h1 h2 hk
    fin_cases m <;> fin_cases k <;> simp_all
  refine h (funext fun k ↦ ?_)
  obtain ⟨k', hk'⟩ := exists_ne (minElem axis)
  by_cases hk : k = minElem axis
  · have := hmin k'
    rw [hparallel k' hk', abs_zero] at this
    rw [hk, Pi.zero_apply]
    exact abs_nonpos_iff.1 this
  · exact hparallel k hk

theorem normalized_eq (v : Vector3 ℝ) : normalized v = (Vector3.norm v)⁻¹ • v :=
  funext fun _ ↦ div_eq_inv_mul _ _

theorem normalized_dotProduct_self {v : Vector3 ℝ} (h : v ≠ 0) :
    normalized v ⬝ᵥ normalized v = 1 := by
  have hpos := dotProduct_self_pos h
  have hsqrt : Vector3.norm v * Vector3.norm v = v ⬝ᵥ v := Real.mul_self_sqrt hpos.le
  have hnorm : Vector3.norm v ≠ 0 := fun h0 ↦ by
    rw [h0, zero_mul] at hsqrt
    exact hpos.ne hsqrt
  rw [normalized_eq, smul_dotProduct, dotProduct_smul, ← hsqrt, smul_eq_mul, smul_eq_mul]
  field_simp

/-- The axes of a joint of type `EJ_XY`: unit vectors, orthogonal to each other and to the joint
axis. -/
structure OrthogonalAxes (axis : Vector3 ℝ) (t1 t2 : Vector3 ℝ) : Prop where
  unit1 : t1 ⬝ᵥ t1 = 1
  unit2 : t2 ⬝ᵥ t2 = 1
  orthogonal : t1 ⬝ᵥ t2 = 0
  axis1 : axis ⬝ᵥ t1 = 0
  axis2 : axis ⬝ᵥ t2 = 0

theorem orthogonalAxes_axesXY {axis : Vector3 ℝ} (h : axis ≠ 0) :
    OrthogonalAxes axis (axesXY axis 0) (axesXY axis 1) := by
  set v := cross axis (minAxis axis) with hv
  have hv0 : v ≠ 0 := cross_minAxis_ne_zero h
  set t1 := normalized v with ht1
  have haxis1 : axis ⬝ᵥ t1 = 0 := by
    rw [ht1, normalized_eq, dotProduct_smul, hv, dot_self_cross, smul_zero]
  have hcross : cross axis t1 ≠ 0 := fun h0 ↦ by
    have := cross_dot_cross axis t1 axis t1
    rw [show axis ⨯₃ t1 = 0 from h0, zero_dotProduct, haxis1,
      normalized_dotProduct_self hv0] at this
    exact (dotProduct_self_pos h).ne (by linarith)
  exact {
    unit1 := normalized_dotProduct_self hv0
    unit2 := normalized_dotProduct_self hcross
    orthogonal := by
      show t1 ⬝ᵥ normalized (cross axis t1) = 0
      rw [normalized_eq, dotProduct_smul, dot_cross_self, smul_zero]
    axis1 := haxis1
    axis2 := by
      show axis ⬝ᵥ normalized (cross axis t1) = 0
      rw [normalized_eq, dotProduct_smul, dot_self_cross, smul_zero] }

end Orthogonal

/-! ### The two registrations -/

/-- Two pairs hold the same links together at the same points along the same axes. -/
structure SameConstraint (linkPair linkPair' : ExtraJointLinkPair ι K) : Prop where
  bodyIndex : linkPair.bodyIndex = linkPair'.bodyIndex
  link : linkPair.link = linkPair'.link
  jointPoint : linkPair.jointPoint = linkPair'.jointPoint
  length : linkPair.constraintPoints.length = linkPair'.constraintPoints.length
  axes : ∀ i : Fin 3, i.val < linkPair.constraintPoints.length →
    linkPair.jointConstraintAxes i = linkPair'.jointConstraintAxes i

/-- The flag is set exactly when both links are in one body. -/
def MarksSameBody (linkPair : ExtraJointLinkPair ι K) : Prop :=
  linkPair.isSameBodyPair = true ↔ linkPair.bodyIndex 0 = linkPair.bodyIndex 1

/-- `initExtraJoints` registers what `addExtraJoint` registers for the same joint, with the right
flag; and the axes of a joint of type `EJ_XY` are orthogonal unit vectors. -/
def RegistersAlike (bodyIndex : ℕ) (j : ExtraJoint ι ℝ) : Prop :=
  ∃ linkPair, initExtraJoint bodyIndex j = some linkPair ∧
    SameConstraint linkPair (addExtraJoint bodyIndex (j.link 0) bodyIndex (j.link 1) (j.point 0)
      (j.point 1) j.type.toShort j.axis) ∧
    MarksSameBody linkPair ∧
    (j.type = .EJ_XY → OrthogonalAxes j.axis (linkPair.jointConstraintAxes 0)
      (linkPair.jointConstraintAxes 1))

theorem eq_pair {α : Type*} (f : Fin 2 → α) : f = ![f 0, f 1] := by
  ext k
  fin_cases k <;> rfl

section Registration

variable [Field K] [LinearOrder K] [CMath K] {j : ExtraJoint ι K}

theorem initExtraJoint_eq_none {bodyIndex : ℕ} (h : j.type ≠ .EJ_XY) :
    initExtraJoint bodyIndex j = none := by
  rw [initExtraJoint]
  cases htype : j.type with
  | EJ_XY => exact absurd htype h
  | EJ_XYZ => rfl
  | EJ_Z => rfl

/-- The pair that is registered for an extra joint of type `EJ_XY`. -/
def pairXY (bodyIndex : ℕ) (j : ExtraJoint ι K) : ExtraJointLinkPair ι K :=
  ((ExtraJointLinkPair.new j.link true true).setAxes 2 (axesXY j.axis)).connect
    (fun _ ↦ bodyIndex) j.link j.point

theorem initExtraJoint_eq_some {bodyIndex : ℕ} (h : j.type = .EJ_XY) :
    initExtraJoint bodyIndex j = some (pairXY bodyIndex j) := by
  rw [initExtraJoint, h]
  rfl

theorem sameConstraint_addExtraJoint {bodyIndex : ℕ} (h : j.type = .EJ_XY) :
    SameConstraint (pairXY bodyIndex j) (addExtraJoint bodyIndex (j.link 0) bodyIndex (j.link 1)
      (j.point 0) (j.point 1) j.type.toShort j.axis) := by
  rw [h, addExtraJoint, if_pos rfl]
  exact ⟨eq_pair _, eq_pair _, eq_pair _, rfl, fun _ _ ↦ rfl⟩

theorem isSameBodyPair_addExtraJoint (bodyIndex1 : ℕ) (link1 : ι) (bodyIndex2 : ℕ) (link2 : ι)
    (link1LocalPos link2LocalPos : Vector3 K) (jointType : ℤ) (jointAxis : Vector3 K) :
    (addExtraJoint bodyIndex1 link1 bodyIndex2 link2 link1LocalPos link2LocalPos jointType
      jointAxis).isSameBodyPair = false := by
  rw [addExtraJoint]
  split_ifs <;> rfl

end Registration

/-- An extra joint of a body is registered as `addExtraJoint` does it exactly when it is of type
`EJ_XY`; and what `addExtraJoint` registers is marked rightly exactly when the links are in
different bodies. -/
theorem registersAlike_iff (bodyIndex : ℕ) (j : ExtraJoint ι ℝ) (h : j.axis ≠ 0) :
    (RegistersAlike bodyIndex j ↔ j.type = .EJ_XY) ∧
      ∀ (bodyIndex1 : ℕ) (link1 : ι) (bodyIndex2 : ℕ) (link2 : ι)
        (link1LocalPos link2LocalPos : Vector3 ℝ) (jointType : ℤ) (jointAxis : Vector3 ℝ),
        MarksSameBody (addExtraJoint bodyIndex1 link1 bodyIndex2 link2 link1LocalPos link2LocalPos
          jointType jointAxis) ↔ bodyIndex1 ≠ bodyIndex2 := by
  refine ⟨⟨?_, fun htype ↦ ?_⟩, fun bodyIndex1 link1 bodyIndex2 link2 _ _ _ _ ↦ ?_⟩
  · rintro ⟨linkPair, hsome, -⟩
    by_contra htype
    rw [initExtraJoint_eq_none htype] at hsome
    exact absurd hsome nofun
  · refine ⟨pairXY bodyIndex j, initExtraJoint_eq_some htype, sameConstraint_addExtraJoint htype,
      iff_of_true rfl rfl, fun _ ↦ orthogonalAxes_axesXY h⟩
  · rw [MarksSameBody, isSameBodyPair_addExtraJoint, Bool.false_eq_true, false_iff]
    rfl

/-- A hinge between two links of the body, about the vertical axis. -/
def hinge : ExtraJoint ℕ ℝ :=
  ⟨.EJ_XY, ![0, 0, 1], ![1, 2], ![![1, 0, 0], ![0, 1, 0]]⟩

theorem registersAlike_hinge : RegistersAlike 0 hinge :=
  (registersAlike_iff 0 hinge fun h ↦ one_ne_zero (congrFun h 2)).1.2 rfl

/-- A ball joint between two links of the body. -/
def ballJoint : ExtraJoint ℕ ℝ :=
  ⟨.EJ_XYZ, ![0, 0, 1], ![1, 2], ![![1, 0, 0], ![0, 1, 0]]⟩

/-- For a ball joint of a body a null pointer is written through. -/
theorem not_registersAlike_ballJoint : ¬RegistersAlike 0 ballJoint := by
  rintro ⟨linkPair, hsome, -⟩
  exact absurd hsome nofun

end OpenHRP.ConstraintForce
