import OpenHRP.ConstraintForce.ConstraintPoints

/-!
# Constraint forces on the links

`addConstraintForceToLinks` adds to the two links of every constrained pair the forces that the
solution gives for the points of the pair, each side with the directions stored for it. The forces
on the two sides are opposite and act at the same point: the forces on all links cancel, and so do
their moments about the world origin (`sum_addConstraintForceToLinks`).
-/

open Matrix

namespace OpenHRP.ConstraintForce

variable {ι K : Type*}

section Force

variable [Field K] (s : Constraints ι K) (solution : ℕ → K)

/-- The force at a constraint point on side `ipair` of its pair. -/
def constraintForce (constraint : ConstraintPoint K) (ipair : Fin 2) : Vector3 K :=
  ((List.finRange 4).filter fun j ↦ j.val < constraint.numFrictionVectors).foldl
    (fun f (j : Fin 4) ↦ f + solution (s.counters.globalNumConstraintVectors +
      constraint.globalFrictionIndex + j.val) • constraint.frictionVector j ipair)
    (solution constraint.globalIndex • constraint.normalTowardInside ipair)

/-- The force and the moment `f_total` and `tau_total` on side `ipair` of a pair. -/
def totalForce (linkPair : LinkPair ι K) (ipair : Fin 2) : Vector3 K × Vector3 K :=
  linkPair.constraintPoints.foldl
    (fun (total : Vector3 K × Vector3 K) constraint ↦
      let f := constraintForce s solution constraint ipair
      total + (f, cross constraint.point f))
    0

/-- The external force of a link and its moment. -/
def externalForce (link : Link K) : Vector3 K × Vector3 K :=
  (link.fext, link.tauext)

variable [DecidableEq ι]

def addConstraintForceToLink (linkPair : LinkPair ι K) (links : ι → Link K) (ipair : Fin 2) :
    ι → Link K :=
  let link := links (linkPair.link ipair)
  let total := totalForce s solution linkPair ipair
  Function.update links (linkPair.link ipair)
    { link with
      fext := link.fext + total.1
      tauext := link.tauext + total.2 }

def addConstraintForceToLinks (links : ι → Link K) : ι → Link K :=
  s.constrainedLinkPairs.foldl
    (fun links linkPair ↦ [0, 1].foldl (addConstraintForceToLink s solution linkPair) links) links

end Force

/-! ### One pair -/

/-- Summing up opposite terms gives opposite sums. -/
theorem foldl_add_neg {α G : Type*} [AddCommGroup G] {xs : List α} {f g : α → G}
    (h : ∀ x ∈ xs, g x = -f x) (a : G) :
    xs.foldl (fun b x ↦ b + g x) (-a) = -xs.foldl (fun b x ↦ b + f x) a := by
  induction xs generalizing a with
  | nil => rfl
  | cons x xs ih =>
    rw [List.foldl_cons, List.foldl_cons, h x List.mem_cons_self, ← neg_add]
    exact ih (fun x hx ↦ h x (List.mem_cons_of_mem _ hx)) _

section Opposite

variable [Field K] {s : Constraints ι K} {solution : ℕ → K}

theorem constraintForce_one {constraint : ConstraintPoint K} (h : Opposite constraint) :
    constraintForce s solution constraint 1 = -constraintForce s solution constraint 0 := by
  rw [constraintForce, constraintForce, h.normal, smul_neg]
  refine foldl_add_neg (fun j hj ↦ ?_) _
  rw [h.friction j (of_decide_eq_true (List.mem_filter.1 hj).2), smul_neg]

/-- The force and the moment on one side of a pair are the opposite of those on the other. -/
theorem totalForce_one {linkPair : LinkPair ι K}
    (h : ∀ constraint ∈ linkPair.constraintPoints, Opposite constraint) :
    totalForce s solution linkPair 1 = -totalForce s solution linkPair 0 := by
  rw [totalForce, totalForce]
  conv_lhs => rw [← neg_zero]
  refine foldl_add_neg (fun constraint hmem ↦ ?_) 0
  rw [constraintForce_one (h constraint hmem), cross, LinearMap.map_neg, Prod.neg_mk]

end Opposite

/-! ### All links -/

section Sum

variable [Field K] [DecidableEq ι] [Fintype ι] {s : Constraints ι K} {solution : ℕ → K}

/-- One side of a pair adds its force and moment to those of all links. -/
theorem sum_addConstraintForceToLink (linkPair : LinkPair ι K) (links : ι → Link K)
    (ipair : Fin 2) :
    ∑ l, externalForce (addConstraintForceToLink s solution linkPair links ipair l) =
      ∑ l, externalForce (links l) + totalForce s solution linkPair ipair := by
  set i := linkPair.link ipair
  set total := totalForce s solution linkPair ipair
  have hupdate (l : ι) :
      externalForce (addConstraintForceToLink s solution linkPair links ipair l) =
      externalForce (links l) + Pi.single (M := fun _ ↦ Vector3 K × Vector3 K) i total l := by
    by_cases h : l = i
    · subst h
      rw [addConstraintForceToLink, Function.update_self, Pi.single_eq_same]
      rfl
    · rw [addConstraintForceToLink, Function.update_of_ne h, Pi.single_eq_of_ne h, add_zero]
  rw [Finset.sum_congr rfl fun l _ ↦ hupdate l, Finset.sum_add_distrib, Finset.sum_pi_single']
  simp

theorem sum_foldl_addConstraintForceToLink (linkPairs : List (LinkPair ι K))
    (h : ∀ constraint ∈ pointsOf linkPairs, Opposite constraint) (links : ι → Link K) :
    ∑ l, externalForce (linkPairs.foldl
        (fun links linkPair ↦ [0, 1].foldl (addConstraintForceToLink s solution linkPair) links)
        links l) =
      ∑ l, externalForce (links l) := by
  induction linkPairs generalizing links with
  | nil => rfl
  | cons linkPair linkPairs ih =>
    rw [List.foldl_cons, ih (fun constraint hmem ↦ h constraint (List.mem_append_right _ hmem))]
    have hopposite : totalForce s solution linkPair 1 = -totalForce s solution linkPair 0 :=
      totalForce_one fun constraint hmem ↦ h constraint (List.mem_append_left _ hmem)
    rw [List.foldl_cons, List.foldl_cons, List.foldl_nil, sum_addConstraintForceToLink,
      sum_addConstraintForceToLink, hopposite, add_assoc, add_neg_cancel, add_zero]

end Sum

/-- A link that is in none of the pairs is left alone. -/
theorem foldl_addConstraintForceToLink_of_ne [Field K] [DecidableEq ι] {s : Constraints ι K}
    {solution : ℕ → K} {l : ι} (linkPairs : List (LinkPair ι K))
    (h : ∀ linkPair ∈ linkPairs, ∀ k, linkPair.link k ≠ l) (links : ι → Link K) :
    linkPairs.foldl
        (fun links linkPair ↦ [0, 1].foldl (addConstraintForceToLink s solution linkPair) links)
        links l = links l := by
  induction linkPairs generalizing links with
  | nil => rfl
  | cons linkPair linkPairs ih =>
    have hpair := h linkPair List.mem_cons_self
    rw [List.foldl_cons, ih fun linkPair hmem ↦ h linkPair (List.mem_cons_of_mem _ hmem)]
    rw [List.foldl_cons, List.foldl_cons, List.foldl_nil, addConstraintForceToLink,
      Function.update_of_ne (hpair 1).symm, addConstraintForceToLink,
      Function.update_of_ne (hpair 0).symm]

/-- The constraint forces on all links cancel, and so do their moments about the world origin; and
a link outside the constrained pairs is left alone. -/
theorem sum_addConstraintForceToLinks [Field K] [LinearOrder K] [CMath K] [DecidableEq ι]
    [Fintype ι] (settings : Settings K) (links : Links ι K)
    (collisionCheckLinkPairs : List (CheckedPair ι K))
    (extraJointLinkPairs : List (ExtraJointLinkPair ι K)) (solution : ℕ → K) :
    let s := setConstraintPoints settings links collisionCheckLinkPairs extraJointLinkPairs
    let after := addConstraintForceToLinks s solution links.link
    ∑ l, ((after l).fext - (links.link l).fext) = 0 ∧
      ∑ l, ((after l).tauext - (links.link l).tauext) = 0 ∧
      ∀ l, (∀ linkPair ∈ s.constrainedLinkPairs, ∀ k, linkPair.link k ≠ l) →
        after l = links.link l := by
  intro s after
  have hsum : ∑ l, externalForce (after l) = ∑ l, externalForce (links.link l) :=
    sum_foldl_addConstraintForceToLink _ (opposite_setConstraintPoints settings links
      collisionCheckLinkPairs extraJointLinkPairs) links.link
  refine ⟨?_, ?_, fun l hl ↦ ?_⟩
  · have := congrArg Prod.fst hsum
    rw [Prod.fst_sum, Prod.fst_sum] at this
    rw [Finset.sum_sub_distrib, sub_eq_zero]
    exact this
  · have := congrArg Prod.snd hsum
    rw [Prod.snd_sum, Prod.snd_sum] at this
    rw [Finset.sum_sub_distrib, sub_eq_zero]
    exact this
  · exact foldl_addConstraintForceToLink_of_ne _ hl links.link

end OpenHRP.ConstraintForce
