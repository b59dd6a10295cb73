import OpenHRP.Foundations.Literals
import Mathlib.Algebra.Order.Field.Basic
import Mathlib.Data.List.Nodup
import Mathlib.Data.List.Count

/-!
# Mechanisms and schedules

A joint of a mechanism points to its first child and to its next brother, and a virtual joint also
to the real link that it stands for: it closes a loop or is a contact. A schedule is a binary tree
of subchains. Its leaves are the links, and each inner node joins the two sides of its last joint,
which may lie in the same subchain.

Loops over the children of a link that stop at a virtual joint do not come to the joints after it;
`JointPtr.reached` is what they come to, and that is every joint when the virtual ones are last
(`virtualLast_iff`).
-/

namespace OpenHRP.SDims

variable {ι K : Type*}

/-! ### Joints -/

/-- A pointer to a joint, with its pointers `child` and `brother`. -/
inductive JointPtr (ι : Type*) where
  | null
  | joint (j : ι) (child brother : JointPtr ι)
  deriving DecidableEq

namespace JointPtr

/-- All joints that hang on a pointer. -/
def all : JointPtr ι → List ι
  | null => []
  | joint j child brother => j :: (child.all ++ brother.all)

/-- `Joint::add_child`, for the pointer `child` of the parent: the new joint comes first. -/
def addChild (child : JointPtr ι) (c : ι) : JointPtr ι :=
  joint c null child

/-- The joints that a recursion over `child` and `brother` comes to when it returns at virtual
joints. -/
def reached (real : ι → Option ι) : JointPtr ι → List ι
  | null => []
  | joint j child brother =>
    if (real j).isSome then [] else j :: (child.reached real ++ brother.reached real)

/-- No joint that is not virtual comes after a virtual one among its brothers, or below one. -/
def VirtualLast (real : ι → Option ι) : JointPtr ι → Prop
  | null => True
  | joint j child brother =>
    if (real j).isSome then
      (∀ i ∈ child.all, (real i).isSome) ∧ ∀ i ∈ brother.all, (real i).isSome
    else child.VirtualLast real ∧ brother.VirtualLast real

variable {real : ι → Option ι}

instance decidableVirtualLast : (f : JointPtr ι) → Decidable (f.VirtualLast real)
  | null => isTrue trivial
  | joint j child brother =>
    haveI := decidableVirtualLast child
    haveI := decidableVirtualLast brother
    inferInstanceAs (Decidable (if (real j).isSome then
      (∀ i ∈ child.all, (real i).isSome) ∧ ∀ i ∈ brother.all, (real i).isSome
      else child.VirtualLast real ∧ brother.VirtualLast real))

theorem reached_sublist (f : JointPtr ι) : (f.reached real).Sublist f.all := by
  induction f with
  | null => exact .slnil
  | joint j child brother ihc ihb =>
    rw [reached, all]
    split
    · exact List.nil_sublist _
    · exact (ihc.append ihb).cons_cons j

theorem real_of_mem_reached {f : JointPtr ι} {j : ι} (h : j ∈ f.reached real) : real j = none := by
  induction f with
  | null => cases h
  | joint i child brother ihc ihb =>
    rw [reached] at h
    split at h
    · cases h
    · next hi =>
      rcases List.mem_cons.1 h with rfl | h
      · exact Option.not_isSome_iff_eq_none.1 hi
      · rcases List.mem_append.1 h with h | h
        · exact ihc h
        · exact ihb h

/-- Every joint that is not virtual is reached when the virtual ones are last. -/
theorem virtualLast_iff {f : JointPtr ι} (hf : f.all.Nodup) :
    f.VirtualLast real ↔ ∀ j ∈ f.all, real j = none → j ∈ f.reached real := by
  induction f with
  | null => exact iff_of_true trivial fun j hj ↦ by cases hj
  | joint i child brother ihc ihb =>
    obtain ⟨hi, happ⟩ := List.nodup_cons.1 hf
    obtain ⟨hchild, hbrother, hdisj⟩ := List.nodup_append'.1 happ
    have hc {j : ι} (hj : j ∈ child.all) : j ∈ child.all ++ brother.all :=
      List.mem_append_left _ hj
    have hb {j : ι} (hj : j ∈ brother.all) : j ∈ child.all ++ brother.all :=
      List.mem_append_right _ hj
    rw [VirtualLast, reached, all]
    split
    · next hvirtual =>
      -- nothing is reached
      constructor
      · rintro ⟨hvc, hvb⟩ j hj hreal
        have hsome : (real j).isSome := by
          rcases List.mem_cons.1 hj with rfl | hj
          · exact hvirtual
          · exact (List.mem_append.1 hj).elim (hvc j) (hvb j)
        exact absurd hreal (Option.isSome_iff_ne_none.1 hsome)
      · intro h
        have hall (j : ι) (hj : j ∈ child.all ++ brother.all) : (real j).isSome :=
          Option.isSome_iff_ne_none.2 fun hreal ↦
            List.not_mem_nil (h j (List.mem_cons_of_mem _ hj) hreal)
        exact ⟨fun j hj ↦ hall j (hc hj), fun j hj ↦ hall j (hb hj)⟩
    · next hreal =>
      rw [ihc hchild, ihb hbrother]
      constructor
      · rintro ⟨hvc, hvb⟩ j hj hnone
        rcases List.mem_cons.1 hj with rfl | hj
        · exact .head _
        · refine List.mem_cons_of_mem _ (List.mem_append.2 ?_)
          exact (List.mem_append.1 hj).imp (hvc j · hnone) (hvb j · hnone)
      · -- a joint below is reached below, and a brother among the brothers
        intro h
        refine ⟨fun j hj hnone ↦ ?_, fun j hj hnone ↦ ?_⟩
        · rcases List.mem_cons.1 (h j (List.mem_cons_of_mem _ (hc hj)) hnone) with rfl | hmem
          · exact absurd (hc hj) hi
          · refine (List.mem_append.1 hmem).resolve_right fun hmem ↦ ?_
            exact hdisj hj ((reached_sublist _).subset hmem)
        · rcases List.mem_cons.1 (h j (List.mem_cons_of_mem _ (hb hj)) hnone) with rfl | hmem
          · exact absurd (hb hj) hi
          · refine (List.mem_append.1 hmem).resolve_left fun hmem ↦ ?_
            exact hdisj ((reached_sublist _).subset hmem) hj

end JointPtr

/-- `TINY_MASS`. -/
def tinyMass [Field K] : K := 1 / 10 ^ 16

/-- What the schedules read of a mechanism: the joint of space and its child, the real links of the
virtual joints, the masses, and the virtual joints that are contacts. The joints are different
ones, and a virtual joint stands for a real link of the mechanism. -/
structure Mechanism (ι K : Type*) where
  root : ι
  child : JointPtr ι
  real : ι → Option ι
  mass : ι → K
  contactVjoints : List ι
  nodup : (root :: child.all).Nodup
  real_root : real root = none
  real_spec : ∀ v r, real v = some r → r ∈ root :: child.all ∧ real r = none

namespace Mechanism

variable (M : Mechanism ι K)

/-- All joints. -/
def joints : List ι := M.root :: M.child.all

/-- The joint is a real link. -/
def IsLink (j : ι) : Prop := j ∈ M.joints ∧ M.real j = none

/-- The joint is virtual. -/
def IsVirtual (v : ι) : Prop := v ∈ M.joints ∧ (M.real v).isSome

/-- The links below the root have a mass. -/
def HasMass [Field K] [LinearOrder K] : Prop :=
  ∀ j ∈ M.child.all, M.real j = none → tinyMass < M.mass j

/-- The links that loops over the children come to. -/
def reached : List ι := M.root :: M.child.reached M.real

theorem nodup_reached : M.reached.Nodup :=
  M.nodup.sublist ((JointPtr.reached_sublist _).cons_cons _)

theorem isLink_of_mem_reached {j : ι} (h : j ∈ M.reached) : M.IsLink j := by
  rcases List.mem_cons.1 h with rfl | h
  · exact ⟨.head _, M.real_root⟩
  · exact ⟨.tail _ ((JointPtr.reached_sublist _).subset h), JointPtr.real_of_mem_reached h⟩

/-- No link comes after or below a virtual joint. -/
def VirtualLast : Prop := M.child.VirtualLast M.real

instance : Decidable M.VirtualLast := JointPtr.decidableVirtualLast M.child

/-- Every link is reached when the virtual joints are last. -/
theorem virtualLast_iff : M.VirtualLast ↔ ∀ j, M.IsLink j → j ∈ M.reached := by
  obtain ⟨hroot, hchild⟩ := List.nodup_cons.1 M.nodup
  rw [VirtualLast, JointPtr.virtualLast_iff hchild]
  constructor
  · rintro h j ⟨hj, hreal⟩
    exact (List.mem_cons.1 hj).elim (· ▸ .head _) fun hj ↦ .tail _ (h j hj hreal)
  · intro h j hj hreal
    refine (List.mem_cons.1 (h j ⟨.tail _ hj, hreal⟩)).resolve_left ?_
    rintro rfl
    exact hroot hj

end Mechanism

/-! ### Subchains -/

/-- A subchain of a schedule: the one of a link, or one with a last joint and two children. In a
`loop` both children are the same subchain. -/
inductive SubChain (ι : Type*) where
  | null
  | leaf (link : ι)
  | node (lastJoint : ι) (child0 child1 : SubChain ι)
  | loop (lastJoint : ι) (child : SubChain ι)
  deriving DecidableEq

namespace SubChain

/-- The subchain, or another one in place of the null pointer. -/
def orElse : SubChain ι → SubChain ι → SubChain ι
  | null, t => t
  | s, _ => s

/-- The last joints of the subchains. -/
def lastJoints : SubChain ι → List ι
  | null => []
  | leaf _ => []
  | node j c0 c1 => j :: (c0.lastJoints ++ c1.lastJoints)
  | loop j c => j :: c.lastJoints

/-- The links of the leaves. -/
def links : SubChain ι → List ι
  | null => []
  | leaf l => [l]
  | node _ c0 c1 => c0.links ++ c1.links
  | loop _ c => c.links

/-- `s.Below t`: the subchain `s` is `t` or below it. -/
inductive Below (s : SubChain ι) : SubChain ι → Prop
  | refl : Below s s
  | child0 {j c0 c1} (h : Below s c0) : Below s (node j c0 c1)
  | child1 {j c0 c1} (h : Below s c1) : Below s (node j c0 c1)
  | loop {j c} (h : Below s c) : Below s (loop j c)

end SubChain

end OpenHRP.SDims
