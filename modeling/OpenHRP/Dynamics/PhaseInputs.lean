import OpenHRP.Dynamics.NewtonEuler

/-!
# What the phases of articulated-body dynamics depend on

The phases write many fields of a link and read few that they have not written themselves. The
accelerations they compute are determined by these **inputs**: the joint state, the constants of
each link and what drives it (`inputs`), and the pose and velocity of the root (`rootState`). No
phase changes an input.

So over a body whose base does not move, the phases are an acceleration function of the joint state
(`ddq_calcABMPhases_congr`), whatever an earlier run left in the links.
-/

open Matrix

namespace OpenHRP

namespace ForwardDynamicsABM

variable {ι K : Type*} [DecidableEq ι] [Field K]

/-! ### Fields that are not read -/

/-- A link without what phase 3 writes. -/
def dropAccel (link : Link K) : Link K :=
  { link with ddq := 0, dvo := 0, dw := 0 }

/-- A link without what phases 2 and 3 write and do not read from before. -/
def dropSolution (link : Link K) : Link K :=
  { link with hhv := 0, hhw := 0, uu := 0, dd := 0, ddq := 0, dvo := 0, dw := 0 }

/-- A link as the root: without what the phases write at the root. -/
def rootState (link : Link K) : Link K :=
  { dropSolution link with v := 0, wc := 0, Iww := 0, Iwv := 0, Ivv := 0, pf := 0, ptau := 0 }

/-- A link without anything the phases write. -/
def inputs (link : Link K) : Link K :=
  { dropSolution link with
    p := 0, R := 0, v := 0, w := 0, wc := 0, vo := 0, sw := 0, sv := 0, cv := 0, cw := 0,
    Iww := 0, Iwv := 0, Ivv := 0, pf := 0, ptau := 0 }

theorem inputs_rootState (link : Link K) : inputs (rootState link) = inputs link :=
  rfl

/-- A link as its parent reads it in phase 2. -/
def dropUnread (link : Link K) : Link K :=
  if link.jointType = .fixedJoint then dropSolution link else dropAccel link

theorem passedInertia_dropUnread (link : Link K) :
    passedInertia (dropUnread link) = passedInertia link := by
  by_cases h : link.jointType = .fixedJoint
  · rw [dropUnread, if_pos h, passedInertia, passedInertia, if_pos h]
    exact if_pos h
  · rw [dropUnread, if_neg h, passedInertia, passedInertia, if_neg h]
    exact if_neg h

theorem passedForce_dropUnread (link : Link K) :
    passedForce (dropUnread link) = passedForce link := by
  have hdrive : passedDrive (dropUnread link) = passedDrive link := by
    by_cases h : link.jointType = .fixedJoint
    · rw [dropUnread, if_pos h, passedDrive, passedDrive, if_neg (not_not.2 h)]
      exact if_neg (not_not.2 h)
    · rw [dropUnread, if_neg h, passedDrive, passedDrive, if_pos h]
      exact if_pos h
  rw [passedForce, passedForce, hdrive, dropUnread]
  split_ifs <;> rfl

/-! ### One link -/

section Phase1

variable [CMath K]

section

omit [CMath K]

theorem rootState_rootState (link : Link K) : rootState (rootState link) = rootState link :=
  rfl

/-- The common part reads a link as the root, and writes what it drops. -/
theorem dropSolution_commonCalcs (g : Vector3 K) (link : Link K) :
    dropSolution (commonCalcs g link) = commonCalcs g (rootState link) :=
  rfl

end

/-- The part for each joint type reads the parent without its solution, and the inputs of the link.
-/
theorem rootState_calcABMPhase1Joint (parent link : Link K) :
    rootState (calcABMPhase1Joint parent link) =
      rootState (calcABMPhase1Joint (dropSolution parent) (inputs link)) := by
  rw [calcABMPhase1Joint, calcABMPhase1Joint,
    show (inputs link).jointType = link.jointType from rfl]
  cases link.jointType <;> rfl

theorem dropSolution_calcABMPhase1Link_none (g : Vector3 K) (link : Link K) :
    dropSolution (calcABMPhase1Link g none link) =
      dropSolution (calcABMPhase1Link g none (rootState link)) := by
  show dropSolution (commonCalcs g link) = dropSolution (commonCalcs g (rootState link))
  rw [dropSolution_commonCalcs, dropSolution_commonCalcs, rootState_rootState]

theorem dropSolution_calcABMPhase1Link_some (g : Vector3 K) (parent link : Link K) :
    dropSolution (calcABMPhase1Link g (some parent) link) =
      dropSolution (calcABMPhase1Link g (some (dropSolution parent)) (inputs link)) := by
  show dropSolution (commonCalcs g (calcABMPhase1Joint parent link)) =
    dropSolution (commonCalcs g (calcABMPhase1Joint (dropSolution parent) (inputs link)))
  rw [dropSolution_commonCalcs, dropSolution_commonCalcs, rootState_calcABMPhase1Joint]

end Phase1

/-- Phase 2 at one link reads its children only in what they pass on. -/
theorem calcABMPhase2Link_dropUnread (isRoot : Bool) (children : List (Link K)) (link : Link K) :
    calcABMPhase2Link isRoot (children.map dropUnread) link =
      calcABMPhase2Link isRoot children link := by
  have hA : (children.map dropUnread).map passedInertia = children.map passedInertia := by
    rw [List.map_map]
    exact List.map_congr_left fun c _ ↦ passedInertia_dropUnread c
  have hf : (children.map dropUnread).map passedForce = children.map passedForce := by
    rw [List.map_map]
    exact List.map_congr_left fun c _ ↦ passedForce_dropUnread c
  rw [calcABMPhase2Link_eq, calcABMPhase2Link_eq, hA,
    show ((children.map dropUnread).map fun c ↦ passedBias c + biasForce c + passedDrive c) =
      children.map fun c ↦ passedBias c + biasForce c + passedDrive c from hf]

theorem dropUnread_calcABMPhase2Link (children : List (Link K)) (link : Link K) :
    dropUnread (calcABMPhase2Link false children link) =
      dropUnread (calcABMPhase2Link false children (dropSolution link)) := by
  rw [calcABMPhase2Link_eq, calcABMPhase2Link_eq]
  by_cases h : link.jointType = .fixedJoint
  · have h' : ¬(¬false = true ∧ link.jointType ≠ .fixedJoint) := fun hc ↦ hc.2 h
    dsimp only
    rw [if_neg h', show (dropSolution link).jointType = link.jointType from rfl, if_neg h',
      dropUnread, dropUnread]
    exact (if_pos h).trans (if_pos h).symm
  · have h' : ¬false = true ∧ link.jointType ≠ .fixedJoint := ⟨by simp, h⟩
    dsimp only
    rw [if_pos h', show (dropSolution link).jointType = link.jointType from rfl, if_pos h',
      dropUnread, dropUnread]
    exact (if_neg h).trans (if_neg h).symm

theorem dropSolution_calcABMPhase2Link (children : List (Link K)) (link : Link K) :
    dropSolution (calcABMPhase2Link true children link) =
      dropSolution (calcABMPhase2Link true children (dropSolution link)) := by
  rw [calcABMPhase2Link_eq, calcABMPhase2Link_eq]
  rfl

/-- What phase 3 finds for a link. -/
def solution (link : Link K) : Spatial K × K :=
  (accel link, link.ddq)

/-- The same from the acceleration of the parent. -/
def solveJoint (a : Spatial K) (link : Link K) : Spatial K × K :=
  if link.jointType ≠ .fixedJoint then
    let ddq := (link.uu - (link.hhv ⬝ᵥ a.1 + link.hhw ⬝ᵥ a.2)) / link.dd
    ((a.1 + link.cv + ddq • link.sv, a.2 + link.cw + ddq • link.sw), ddq)
  else (a, 0)

theorem solution_calcABMPhase3Joint (parent link : Link K) :
    solution (calcABMPhase3Joint parent link) = solveJoint (accel parent) link := by
  rw [calcABMPhase3Joint, solveJoint]
  split_ifs <;> rfl

theorem solveJoint_dropUnread (a : Spatial K) (link : Link K) :
    solveJoint a (dropUnread link) = solveJoint a link := by
  by_cases h : link.jointType = .fixedJoint
  · rw [dropUnread, if_pos h, solveJoint, solveJoint, if_neg (not_not.2 h)]
    exact if_neg (not_not.2 h)
  · rw [dropUnread, if_neg h, solveJoint, solveJoint, if_pos h]
    exact if_pos h

theorem accel_calcABMPhase3Root_eq (solve : Solver K) (root : Link K) :
    accel (calcABMPhase3Root solve root) =
      if root.jointType = .freeJoint then
        (solve (articulatedInertia root) (-Sum.elim root.pf root.ptau) ∘ Sum.inl,
          solve (articulatedInertia root) (-Sum.elim root.pf root.ptau) ∘ Sum.inr)
      else 0 := by
  rw [calcABMPhase3Root]
  split_ifs <;> rfl

theorem accel_calcABMPhase3Root_dropSolution (solve : Solver K) (root : Link K) :
    accel (calcABMPhase3Root solve (dropSolution root)) =
      accel (calcABMPhase3Root solve root) := by
  rw [accel_calcABMPhase3Root_eq, accel_calcABMPhase3Root_eq]
  rfl

/-! ### The passes over the tree -/

section Phases

variable [CMath K] (t : LinkTree ι) (g : Vector3 K) (solve : Solver K)

/-- Two stores give the phases the same inputs. -/
structure SameInputs (s s' : Store ι K) : Prop where
  link : ∀ i ∈ t.links, inputs (s i) = inputs (s' i)
  root : rootState (s t.root) = rootState (s' t.root)

variable {t} {s s' : Store ι K}

theorem dropSolution_calcABMPhase1_congr (h : SameInputs t s s') : ∀ i ∈ t.links,
    dropSolution (calcABMPhase1 t g s i) = dropSolution (calcABMPhase1 t g s' i) := by
  have hlink : ∀ (s : Store ι K) {i}, i ∈ t.links → calcABMPhase1 t g s i =
      calcABMPhase1Link g ((t.parent i).map (calcABMPhase1 t g s)) (s i) := fun s _ hi ↦
    t.forwardLoop_eq _ s hi
  refine t.parent_induction ?_ fun p c hpc ih ↦ ?_
  · rw [hlink s t.root_mem, hlink s' t.root_mem, t.parent_root, Option.map_none, Option.map_none,
      dropSolution_calcABMPhase1Link_none, h.root, ← dropSolution_calcABMPhase1Link_none]
  · have hc := (t.parent_mem hpc).2
    rw [hlink s hc, hlink s' hc, hpc, Option.map_some, Option.map_some,
      dropSolution_calcABMPhase1Link_some, ih, h.link c hc,
      ← dropSolution_calcABMPhase1Link_some]

section

omit [CMath K]

theorem dropUnread_calcABMPhase2_congr
    (h : ∀ i ∈ t.links, dropSolution (s i) = dropSolution (s' i)) : ∀ i ∈ t.links, i ≠ t.root →
    dropUnread (calcABMPhase2 t s i) = dropUnread (calcABMPhase2 t s' i) := by
  refine t.children_induction fun i hi ih hr ↦ ?_
  have hchildren : ((t.children i).map (calcABMPhase2 t s)).map dropUnread =
      ((t.children i).map (calcABMPhase2 t s')).map dropUnread := by
    rw [List.map_map, List.map_map]
    exact List.map_congr_left fun c hc ↦ ih c hc (t.ne_root_of_parent (t.mem_children.1 hc))
  rw [calcABMPhase2_eq t s hi, calcABMPhase2_eq t s' hi, decide_eq_false hr,
    dropUnread_calcABMPhase2Link, h i hi, ← calcABMPhase2Link_dropUnread, hchildren,
    calcABMPhase2Link_dropUnread, ← dropUnread_calcABMPhase2Link]

theorem dropSolution_calcABMPhase2_root_congr
    (h : ∀ i ∈ t.links, dropSolution (s i) = dropSolution (s' i)) :
    dropSolution (calcABMPhase2 t s t.root) = dropSolution (calcABMPhase2 t s' t.root) := by
  have hchildren : ((t.children t.root).map (calcABMPhase2 t s)).map dropUnread =
      ((t.children t.root).map (calcABMPhase2 t s')).map dropUnread := by
    rw [List.map_map, List.map_map]
    refine List.map_congr_left fun c hc ↦ ?_
    have hpc := t.mem_children.1 hc
    exact dropUnread_calcABMPhase2_congr h c (t.parent_mem hpc).2 (t.ne_root_of_parent hpc)
  rw [calcABMPhase2_eq t s t.root_mem, calcABMPhase2_eq t s' t.root_mem, decide_eq_true rfl,
    dropSolution_calcABMPhase2Link, h _ t.root_mem, ← calcABMPhase2Link_dropUnread, hchildren,
    calcABMPhase2Link_dropUnread, ← dropSolution_calcABMPhase2Link]

end

/-- **The phases depend on their inputs only**: stores with the same inputs get the same
accelerations. -/
theorem solution_calcABMPhases_congr (h : SameInputs t s s') : ∀ i ∈ t.links,
    accel (calcABMPhases t g solve s i) = accel (calcABMPhases t g solve s' i) ∧
      (i ≠ t.root →
        (calcABMPhases t g solve s i).ddq = (calcABMPhases t g solve s' i).ddq) := by
  have h₁ := dropSolution_calcABMPhase1_congr g h
  refine t.parent_induction ⟨?_, fun hr ↦ absurd rfl hr⟩ fun p c hpc ih ↦ ?_
  · rw [calcABMPhases, calcABMPhases, calcABMPhase3_root, calcABMPhase3_root,
      ← accel_calcABMPhase3Root_dropSolution, dropSolution_calcABMPhase2_root_congr h₁,
      accel_calcABMPhase3Root_dropSolution]
  · have hsolution : solution (calcABMPhases t g solve s c) =
        solution (calcABMPhases t g solve s' c) := by
      rw [calcABMPhases, calcABMPhases, calcABMPhase3_joint t solve _ hpc,
        calcABMPhase3_joint t solve _ hpc, solution_calcABMPhase3Joint,
        solution_calcABMPhase3Joint, ← solveJoint_dropUnread,
        dropUnread_calcABMPhase2_congr h₁ c (t.parent_mem hpc).2 (t.ne_root_of_parent hpc),
        solveJoint_dropUnread]
      exact congrArg (fun a ↦ solveJoint a _) ih.1
    exact ⟨congrArg Prod.fst hsolution, fun _ ↦ congrArg Prod.snd hsolution⟩

/-! ### No phase changes an input -/

theorem inputs_calcABMPhase1Link (parent : Option (Link K)) (link : Link K) :
    inputs (calcABMPhase1Link g parent link) = inputs link := by
  cases parent with
  | none => rfl
  | some parent =>
    show inputs (calcABMPhase1Joint parent link) = inputs link
    rw [calcABMPhase1Joint]
    split <;> rfl

section

omit [CMath K]

theorem rootState_calcABMPhase2Link (isRoot : Bool) (children : List (Link K)) (link : Link K) :
    rootState (calcABMPhase2Link isRoot children link) = rootState link := by
  rw [calcABMPhase2Link_eq]
  dsimp only
  split_ifs <;> rfl

theorem rootState_calcABMPhase2Part1Link (isRoot : Bool) (children : List (Link K))
    (link : Link K) : rootState (calcABMPhase2Part1Link isRoot children link) = rootState link := by
  rw [calcABMPhase2Part1Link_eq]
  dsimp only
  split_ifs <;> rfl

theorem rootState_calcABMPhase3 (s : Store ι K) (i : ι) :
    rootState (calcABMPhase3 t solve s i) = rootState (s i) := by
  refine sweep_field rootState (fun i s ↦ ?_) _ _ i
  cases t.parent i with
  | none =>
    show rootState (calcABMPhase3Root solve (s i)) = rootState (s i)
    rw [calcABMPhase3Root]
    split_ifs <;> rfl
  | some p =>
    show rootState (calcABMPhase3Joint (s p) (s i)) = rootState (s i)
    rw [calcABMPhase3Joint]
    split_ifs <;> rfl

end

theorem sameInputs_calcABMPhase1 (s : Store ι K) : SameInputs t (calcABMPhase1 t g s) s := by
  refine ⟨fun i _ ↦ sweep_field inputs (fun _ _ ↦ inputs_calcABMPhase1Link g _ _) _ _ i, ?_⟩
  have hroot : calcABMPhase1 t g s t.root =
      calcABMPhase1Link g ((t.parent t.root).map (calcABMPhase1 t g s)) (s t.root) :=
    t.forwardLoop_eq _ s t.root_mem
  rw [hroot, t.parent_root]
  rfl

section

omit [CMath K] [DecidableEq ι]

/-- A store that agrees on `rootState` everywhere has the same inputs. -/
theorem SameInputs.of_rootState (h : ∀ i, rootState (s i) = rootState (s' i)) :
    SameInputs t s s' :=
  ⟨fun i _ ↦ by rw [← inputs_rootState, h i, inputs_rootState], h t.root⟩

theorem SameInputs.trans {s'' : Store ι K} (h : SameInputs t s s') (h' : SameInputs t s' s'') :
    SameInputs t s s'' :=
  ⟨fun i hi ↦ (h.link i hi).trans (h'.link i hi), h.root.trans h'.root⟩

end

theorem sameInputs_calcABMPhases (s : Store ι K) : SameInputs t (calcABMPhases t g solve s) s := by
  refine (SameInputs.of_rootState fun i ↦ ?_).trans (sameInputs_calcABMPhase1 g s)
  rw [calcABMPhases, rootState_calcABMPhase3]
  exact sweep_field rootState (fun _ _ ↦ rootState_calcABMPhase2Link _ _ _) _ _ i

theorem sameInputs_calcABMFirstHalf (s : Store ι K) :
    SameInputs t (calcABMFirstHalf t g s) s := by
  refine (SameInputs.of_rootState fun i ↦ ?_).trans (sameInputs_calcABMPhase1 g s)
  exact sweep_field rootState (fun _ _ ↦ rootState_calcABMPhase2Part1Link _ _ _) _ _ i

/-- The last half after the first half does what the phases do. -/
theorem calcABMLastHalf_calcABMFirstHalf (s : Store ι K) :
    calcABMLastHalf t solve (calcABMFirstHalf t g s) = calcABMPhases t g solve s := by
  rw [calcABMLastHalf, calcABMFirstHalf, calcABMPhases,
    funext (calcABMPhase2Part2_apply t (calcABMPhase1 t g s))]

end Phases

end ForwardDynamicsABM

end OpenHRP
