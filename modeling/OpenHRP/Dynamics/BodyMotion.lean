import OpenHRP.Kinematics.RigidMotion
import Mathlib.Algebra.Order.Field.Basic

/-!
# Motions of a body and their momenta

A motion of a body gives every link a linear and an angular velocity such that every joint adds
its own motion to that of the parent (`IsMotion`). Seen as spatial velocities at the world origin,
motions grow along the tree by multiples of the joint axes (`IsMotion.spatialVelocity`), and the
momentum of a link is its spatial inertia applied to its spatial velocity
(`linkInertia_toLin_spatialVelocity`). What a joint rate contributes to a sum of momenta is
therefore the inertia of the whole subtree it carries, applied to its axis
(`IsMotion.sum_linkInertia`).
-/

open Matrix

namespace OpenHRP

variable {ι K : Type*} [DecidableEq ι] [Field K]

/-- The spatial velocity at the origin of a link at `p` with the velocities `v` and `w`. -/
def spatialVelocity (p v w : Vector3 K) : Spatial K :=
  (v - cross w p, w)

/-- The unit spatial velocity generated by the joint of `child`, over a parent of the
attitude `R`. -/
def motionAxis (R : Matrix33 K) (child : Link K) : Spatial K :=
  let u := jointTwist R child 1
  (u.1 + cross child.p u.2, u.2)

/-- The velocities `v` and `w` are those of a motion with the joint rates `rate`. -/
structure IsMotion (t : LinkTree ι) (s : Store ι K) (rate : ι → K) (v w : ι → Vector3 K) :
    Prop where
  v : ∀ p c, t.parent c = some p → v c = v p + w p ⨯₃ ((s c).p - (s p).p) +
    (jointTwist (s p).R (s c) (rate c)).1
  w : ∀ p c, t.parent c = some p → w c = w p + (jointTwist (s p).R (s c) (rate c)).2

/-- The centre of mass of a link in the world. -/
def centerOfMass (link : Link K) : Vector3 K :=
  link.p + link.R *ᵥ link.c

/-- The spatial inertia of a link about the world origin, from its own data. -/
def linkInertia (link : Link K) : BlockInertia K :=
  ⟨link.m • 1, link.m • hat (centerOfMass link),
    link.R * link.I * link.Rᵀ +
      link.m • (hat (centerOfMass link) * (hat (centerOfMass link))ᵀ)⟩

section

omit [DecidableEq ι]

theorem jointTwist_eq_smul (R : Matrix33 K) (child : Link K) (x : K) :
    jointTwist R child x = x • jointTwist R child 1 := by
  rw [jointTwist, jointTwist]
  cases child.jointType <;> simp

/-- The momentum of a link: the linear one is that of the mass at the centre of mass, the angular
one that of the mass and of the rotation about the centre of mass. -/
theorem linkInertia_toLin (link : Link K) (x : Spatial K) :
    (linkInertia link).toLin x =
      (link.m • (x.1 + x.2 ⨯₃ centerOfMass link), (link.R * link.I * link.Rᵀ) *ᵥ x.2 +
        centerOfMass link ⨯₃ (link.m • (x.1 + x.2 ⨯₃ centerOfMass link))) := by
  set c := centerOfMass link with hc
  refine Prod.ext ?_ ?_
  · show (link.m • (1 : Matrix33 K)) *ᵥ x.1 + (link.m • hat c)ᵀ *ᵥ x.2 =
      link.m • (x.1 + x.2 ⨯₃ c)
    rw [transpose_smul, smul_mulVec, smul_mulVec, one_mulVec, hat_transpose_mulVec, ← smul_add]
  · show (link.m • hat c) *ᵥ x.1 +
        (link.R * link.I * link.Rᵀ + link.m • (hat c * (hat c)ᵀ)) *ᵥ x.2 =
      (link.R * link.I * link.Rᵀ) *ᵥ x.2 + c ⨯₃ (link.m • (x.1 + x.2 ⨯₃ c))
    rw [add_mulVec, smul_mulVec, smul_mulVec, hat_mulVec, hat_mul_transpose_mulVec,
      LinearMap.map_smul (crossProduct c), LinearMap.map_add (crossProduct c), smul_add]
    abel

/-- The velocity of the centre of mass, from the spatial velocity. -/
theorem spatialVelocity_centerOfMass (link : Link K) (v w : Vector3 K) :
    (spatialVelocity link.p v w).1 + (spatialVelocity link.p v w).2 ⨯₃ centerOfMass link =
      v + w ⨯₃ (link.R *ᵥ link.c) := by
  show v - w ⨯₃ link.p + w ⨯₃ (link.p + link.R *ᵥ link.c) = _
  rw [LinearMap.map_add]
  abel

end

variable {t : LinkTree ι} {s : Store ι K} {rate : ι → K} {v w : ι → Vector3 K}

/-- Along a joint, the spatial velocity grows by a multiple of the joint axis. -/
theorem IsMotion.spatialVelocity (h : IsMotion t s rate v w) {p c : ι} (hpc : t.parent c = some p) :
    OpenHRP.spatialVelocity (s c).p (v c) (w c) =
      OpenHRP.spatialVelocity (s p).p (v p) (w p) + rate c • motionAxis (s p).R (s c) := by
  have hv := h.v p c hpc
  have hw := h.w p c hpc
  rw [jointTwist_eq_smul] at hv hw
  refine Prod.ext ?_ ?_
  · show v c - w c ⨯₃ (s c).p = v p - w p ⨯₃ (s p).p +
      rate c • ((jointTwist (s p).R (s c) 1).1 + (s c).p ⨯₃ (jointTwist (s p).R (s c) 1).2)
    rw [hv, hw, Prod.smul_fst, Prod.smul_snd, LinearMap.map_add₂, LinearMap.map_smul₂,
      LinearMap.map_sub, ← cross_anticomm (s c).p (jointTwist (s p).R (s c) 1).2]
    module
  · exact hw

/-- The unit spatial velocity of the joint of a link in its tree; the root has none. -/
def treeAxis (t : LinkTree ι) (s : Store ι K) (i : ι) : Spatial K :=
  (t.parent i).elim 0 fun p ↦ motionAxis (s p).R (s i)

/-- The inertia of a subtree, as a map from velocities to momenta. -/
def subtreeInertia (t : LinkTree ι) (s : Store ι K) (i : ι) : Spatial K →ₗ[K] Spatial K :=
  t.subtreeSum (fun i ↦ (linkInertia (s i)).toLin) i

theorem subtreeInertia_apply (t : LinkTree ι) (s : Store ι K) (i : ι) (x : Spatial K) :
    subtreeInertia t s i x = t.subtreeSum (fun j ↦ (linkInertia (s j)).toLin x) i :=
  t.map_subtreeSum
    (⟨⟨fun f ↦ f x, rfl⟩, fun _ _ ↦ rfl⟩ : (Spatial K →ₗ[K] Spatial K) →+ Spatial K)
    (fun j ↦ (linkInertia (s j)).toLin) i

/-- **The momentum of a motion**: the root moves the whole body, and every joint the subtree
it carries. -/
theorem IsMotion.sum_linkInertia (h : IsMotion t s rate v w) :
    (t.links.map fun i ↦
        (linkInertia (s i)).toLin (OpenHRP.spatialVelocity (s i).p (v i) (w i))).sum =
      subtreeInertia t s t.root
          (OpenHRP.spatialVelocity (s t.root).p (v t.root) (w t.root)) +
        (t.child.links.map fun i ↦ subtreeInertia t s i (rate i • treeAxis t s i)).sum := by
  refine t.sum_apply_eq (fun i ↦ (linkInertia (s i)).toLin)
    (V := fun i ↦ OpenHRP.spatialVelocity (s i).p (v i) (w i)) fun p c hpc ↦ ?_
  show OpenHRP.spatialVelocity _ _ _ = _ + rate c • treeAxis t s c
  rw [h.spatialVelocity hpc, treeAxis, hpc, Option.elim_some]

/-- Positive masses give subtrees positive masses. -/
theorem subtreeSum_mass_pos [LinearOrder K] [IsStrictOrderedRing K]
    (hmass : ∀ i ∈ t.links, 0 < (s i).m) {i : ι}
    (hi : i ∈ t.links) : 0 < t.subtreeSum (fun j ↦ (s j).m) i := by
  have hnonneg : 0 ≤ ((t.childPtr i).links.map fun j ↦ (s j).m).sum := by
    refine List.sum_nonneg fun x hx ↦ ?_
    obtain ⟨j, hj, rfl⟩ := List.mem_map.1 hx
    exact (hmass j ((t.below_sublist hi).subset (List.mem_cons_of_mem i hj))).le
  rw [LinkTree.subtreeSum, LinkPtr.sum_eq_sum_links]
  exact add_pos_of_pos_of_nonneg (hmass i hi) hnonneg

end OpenHRP
