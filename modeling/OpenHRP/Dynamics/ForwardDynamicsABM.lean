import OpenHRP.Model.Link

/-!
# The phases of articulated-body forward dynamics

`ForwardDynamicsABM` computes the accelerations of a body in three loops over its links: phase 1
(outward) places the links and sets up their spatial inertias and bias forces, phase 2 (inward)
accumulates articulated inertias and bias forces, phase 3 (outward) solves for the accelerations.
Phase 2 comes in two forms: at once, or split into the part that can be computed before the
external forces are known and the remaining part.

The linear solver of the root (`Ia.colPivHouseholderQr().solve(p)`) is a parameter `solve`.

The last section shows that splitting phase 2 changes nothing, for any tree and any state
(`calcABMPhase2Part2_calcABMPhase2Part1`).
-/

open Matrix

namespace OpenHRP

namespace ForwardDynamicsABM

variable {ι K : Type*} [DecidableEq ι] [Field K]

/-! ### Phase 1 -/

section Phase1

variable [CMath K]

/-- Common part of phase 1 for ROTATE and SLIDE. -/
def crossVelocityTerms (parent link : Link K) : Link K :=
  let vo := link.dq • link.sv + parent.vo
  let dsv := cross parent.w link.sv + cross parent.vo link.sw
  let dsw := cross parent.w link.sw
  { link with vo := vo, cv := link.dq • dsv, cw := link.dq • dsw }

/-- The `switch` over the joint type of phase 1. -/
def calcABMPhase1Joint (parent link : Link K) : Link K :=
  match link.jointType with
  | .rotationalJoint =>
    let p := parent.R *ᵥ link.b + parent.p
    let sw := parent.R *ᵥ link.a
    crossVelocityTerms parent
      { link with
        R := parent.R * rodrigues link.a link.q, p := p, sw := sw, sv := cross p sw,
        w := link.dq • sw + parent.w }
  | .slideJoint =>
    crossVelocityTerms parent
      { link with
        p := parent.R *ᵥ (link.b + link.q • link.d) + parent.p, R := parent.R, sw := 0,
        sv := parent.R *ᵥ link.d, w := parent.w }
  | .fixedJoint | .freeJoint =>
    { link with
      p := parent.R *ᵥ link.b + parent.p, R := parent.R, w := parent.w, vo := parent.vo,
      sw := 0, sv := 0, cv := 0, cw := 0 }

/-- `COMMON_CALCS_FOR_ALL_JOINT_TYPES`: velocity, centre of mass, spatial inertia and bias force
under the gravity acceleration `g`. -/
def commonCalcs (g : Vector3 K) (link : Link K) : Link K :=
  let wc := link.R *ᵥ link.c + link.p
  let Iw := link.R * link.I * link.Rᵀ
  let c_hat := hat wc
  let Iww := link.m • (c_hat * c_hatᵀ) + Iw
  let P := link.m • (link.vo + cross link.w wc)
  let L := Iww *ᵥ link.w + link.m • cross wc link.vo
  let fg := (-link.m) • g
  let tg := cross wc fg
  { link with
    v := link.vo + cross link.w link.p, wc := wc, Iww := Iww,
    Ivv := !![link.m, 0, 0; 0, link.m, 0; 0, 0, link.m], Iwv := link.m • c_hat,
    pf := cross link.w P - fg, ptau := cross link.vo P + cross link.w L - tg }

/-- One turn of the loop of phase 1. -/
def calcABMPhase1Link (g : Vector3 K) (parent : Option (Link K)) (link : Link K) : Link K :=
  commonCalcs g (parent.elim link fun parent ↦ calcABMPhase1Joint parent link)

/-- Phase 1 (outbound). -/
def calcABMPhase1 (t : LinkTree ι) (g : Vector3 K) (s : Store ι K) : Store ι K :=
  t.forwardLoop (fun _ ↦ calcABMPhase1Link g) s

end Phase1

/-! ### Phase 2 -/

/-- What a child adds to the articulated inertia of its parent. -/
def addChildInertia (link child : Link K) : Link K :=
  if child.jointType = .fixedJoint then
    { link with
      Ivv := link.Ivv + child.Ivv, Iwv := link.Iwv + child.Iwv, Iww := link.Iww + child.Iww }
  else
    let hhv_dd := child.dd⁻¹ • child.hhv
    { link with
      Ivv := link.Ivv + (child.Ivv - vecMulVec child.hhv hhv_dd),
      Iwv := link.Iwv + (child.Iwv - vecMulVec child.hhw hhv_dd),
      Iww := link.Iww + (child.Iww - vecMulVec child.hhw (child.dd⁻¹ • child.hhw)) }

/-- What the torque of a child's joint adds to the bias force of its parent. -/
def addChildDrive (link child : Link K) : Link K :=
  if child.jointType ≠ .fixedJoint then
    let uu_dd := child.uu / child.dd
    { link with pf := link.pf + uu_dd • child.hhv, ptau := link.ptau + uu_dd • child.hhw }
  else link

/-- The body of the loop over the children in `calcABMPhase2`. -/
def calcABMPhase2Child (link child : Link K) : Link K :=
  let link := addChildInertia link child
  let link :=
    { link with
      pf := link.pf + (child.Ivv *ᵥ child.cv + child.Iwvᵀ *ᵥ child.cw + child.pf),
      ptau := link.ptau + (child.Iwv *ᵥ child.cv + child.Iww *ᵥ child.cw + child.ptau) }
  addChildDrive link child

/-- `hh = Ia * s` and `dd = Ia * s * s^T`. -/
def calcJointInertia (link : Link K) : Link K :=
  let hhv := link.Ivv *ᵥ link.sv + link.Iwvᵀ *ᵥ link.sw
  let hhw := link.Iwv *ᵥ link.sv + link.Iww *ᵥ link.sw
  { link with hhv := hhv, hhw := hhw, dd := link.sv ⬝ᵥ hhv + link.sw ⬝ᵥ hhw + link.Jm2 }

/-- One turn of the loop of phase 2. -/
def calcABMPhase2Link (isRoot : Bool) (children : List (Link K)) (link : Link K) : Link K :=
  let link := { link with pf := link.pf - link.fext, ptau := link.ptau - link.tauext }
  let link := children.foldl calcABMPhase2Child link
  if ¬isRoot ∧ link.jointType ≠ .fixedJoint then
    let link := calcJointInertia link
    -- uu = u - hh^T*c + s^T*pp
    { link with
      uu := link.u - (link.hhv ⬝ᵥ link.cv + link.hhw ⬝ᵥ link.cw +
        link.sv ⬝ᵥ link.pf + link.sw ⬝ᵥ link.ptau) }
  else link

/-- Phase 2 (inbound). -/
def calcABMPhase2 (t : LinkTree ι) (s : Store ι K) : Store ι K :=
  t.reverseLoop (fun i ↦ calcABMPhase2Link (decide (i = t.root))) s

/-- The body of the loop over the children in `calcABMPhase2Part1`. -/
def calcABMPhase2Part1Child (link child : Link K) : Link K :=
  let link := addChildInertia link child
  { link with
    pf := link.pf + (child.Ivv *ᵥ child.cv + child.Iwvᵀ *ᵥ child.cw),
    ptau := link.ptau + (child.Iwv *ᵥ child.cv + child.Iww *ᵥ child.cw) }

/-- One turn of the loop of `calcABMPhase2Part1`. -/
def calcABMPhase2Part1Link (isRoot : Bool) (children : List (Link K)) (link : Link K) : Link K :=
  let link := children.foldl calcABMPhase2Part1Child link
  if ¬isRoot ∧ link.jointType ≠ .fixedJoint then
    let link := calcJointInertia link
    { link with uu := -(link.hhv ⬝ᵥ link.cv + link.hhw ⬝ᵥ link.cw) }
  else link

/-- A part of phase 2 (inbound loop) that can be calculated before external forces are given. -/
def calcABMPhase2Part1 (t : LinkTree ι) (s : Store ι K) : Store ι K :=
  t.reverseLoop (fun i ↦ calcABMPhase2Part1Link (decide (i = t.root))) s

/-- The body of the loop over the children in `calcABMPhase2Part2`. -/
def calcABMPhase2Part2Child (link child : Link K) : Link K :=
  addChildDrive { link with pf := link.pf + child.pf, ptau := link.ptau + child.ptau } child

/-- One turn of the loop of `calcABMPhase2Part2`. -/
def calcABMPhase2Part2Link (isRoot : Bool) (children : List (Link K)) (link : Link K) : Link K :=
  let link := { link with pf := link.pf - link.fext, ptau := link.ptau - link.tauext }
  let link := children.foldl calcABMPhase2Part2Child link
  if ¬isRoot ∧ link.jointType ≠ .fixedJoint then
    { link with
      uu := link.uu + (link.u - (link.sv ⬝ᵥ link.pf + link.sw ⬝ᵥ link.ptau)) }
  else link

/-- A remaining part of phase 2 that requires external forces. -/
def calcABMPhase2Part2 (t : LinkTree ι) (s : Store ι K) : Store ι K :=
  t.reverseLoop (fun i ↦ calcABMPhase2Part2Link (decide (i = t.root))) s

/-! ### Phase 3 -/

/-- The linear solver of the root: a matrix and a right-hand side to a solution. -/
abbrev Solver (K : Type*) :=
  Matrix (Fin 3 ⊕ Fin 3) (Fin 3 ⊕ Fin 3) K → (Fin 3 ⊕ Fin 3 → K) → Fin 3 ⊕ Fin 3 → K

/-- The six-by-six articulated inertia of a link. -/
def articulatedInertia (link : Link K) : Matrix (Fin 3 ⊕ Fin 3) (Fin 3 ⊕ Fin 3) K :=
  Matrix.fromBlocks link.Ivv link.Iwvᵀ link.Iwv link.Iww

/-- The root of phase 3: a free root accelerates so that no force acts on it, any other stays. -/
def calcABMPhase3Root (solve : Solver K) (root : Link K) : Link K :=
  if root.jointType = .freeJoint then
    let pm := solve (articulatedInertia root) (-Sum.elim root.pf root.ptau)
    { root with dvo := pm ∘ Sum.inl, dw := pm ∘ Sum.inr }
  else { root with dvo := 0, dw := 0 }

/-- One turn of the loop of phase 3. -/
def calcABMPhase3Joint (parent link : Link K) : Link K :=
  if link.jointType ≠ .fixedJoint then
    let ddq := (link.uu - (link.hhv ⬝ᵥ parent.dvo + link.hhw ⬝ᵥ parent.dw)) / link.dd
    { link with
      ddq := ddq, dvo := parent.dvo + link.cv + ddq • link.sv,
      dw := parent.dw + link.cw + ddq • link.sw }
  else { link with ddq := 0, dvo := parent.dvo, dw := parent.dw }

/-- Phase 3 (outbound): the root, then every other link from its parent. -/
def calcABMPhase3 (t : LinkTree ι) (solve : Solver K) (s : Store ι K) : Store ι K :=
  t.forwardLoop (fun _ parent link ↦
    parent.elim (calcABMPhase3Root solve link) fun parent ↦ calcABMPhase3Joint parent link) s

/-! ### The passes -/

section Passes

variable [CMath K]

/-- What is calculated before the external forces are given. -/
def calcABMFirstHalf (t : LinkTree ι) (g : Vector3 K) (s : Store ι K) : Store ι K :=
  calcABMPhase2Part1 t (calcABMPhase1 t g s)

/-- What is calculated once the external forces are given. -/
def calcABMLastHalf (t : LinkTree ι) (solve : Solver K) (s : Store ι K) : Store ι K :=
  calcABMPhase3 t solve (calcABMPhase2Part2 t s)

/-- The three phases in sequence. -/
def calcABMPhases (t : LinkTree ι) (g : Vector3 K) (solve : Solver K) (s : Store ι K) :
    Store ι K :=
  calcABMPhase3 t solve (calcABMPhase2 t (calcABMPhase1 t g s))

end Passes

/-! ### The loops over the children

Each of the three loops only adds to the inertia and the bias force of the link; what a child adds
is a function of the child alone. -/

/-- The articulated inertia of a link, by blocks. -/
def inertia (link : Link K) : BlockInertia K :=
  ⟨link.Ivv, link.Iwv, link.Iww⟩

/-- The bias force of a link. -/
def biasForce (link : Link K) : Spatial K :=
  (link.pf, link.ptau)

/-- A link with another inertia and another bias force. -/
def setInertiaForce (link : Link K) (A : BlockInertia K) (f : Spatial K) : Link K :=
  { link with Ivv := A.vv, Iwv := A.wv, Iww := A.ww, pf := f.1, ptau := f.2 }

/-- The inertia a child passes to its parent. -/
def passedInertia (child : Link K) : BlockInertia K :=
  if child.jointType = .fixedJoint then inertia child
  else
    ⟨child.Ivv - vecMulVec child.hhv (child.dd⁻¹ • child.hhv),
      child.Iwv - vecMulVec child.hhw (child.dd⁻¹ • child.hhv),
      child.Iww - vecMulVec child.hhw (child.dd⁻¹ • child.hhw)⟩

/-- The force a child passes to its parent through its cross velocity term. -/
def passedBias (child : Link K) : Spatial K :=
  (inertia child).toLin (child.cv, child.cw)

/-- The force a child passes to its parent through the drive of its joint. -/
def passedDrive (child : Link K) : Spatial K :=
  if child.jointType ≠ .fixedJoint then (child.uu / child.dd) • (child.hhv, child.hhw) else 0

variable (link child : Link K)

theorem calcABMPhase2Child_eq :
    calcABMPhase2Child link child = setInertiaForce link (inertia link + passedInertia child)
      (biasForce link + (passedBias child + biasForce child + passedDrive child)) := by
  by_cases h : child.jointType = .fixedJoint <;>
    simp [calcABMPhase2Child, addChildInertia, addChildDrive, setInertiaForce, inertia, biasForce,
      passedInertia, passedBias, passedDrive, h, add_assoc]

theorem calcABMPhase2Part1Child_eq :
    calcABMPhase2Part1Child link child = setInertiaForce link
      (inertia link + passedInertia child) (biasForce link + passedBias child) := by
  by_cases h : child.jointType = .fixedJoint <;>
    simp [calcABMPhase2Part1Child, addChildInertia, setInertiaForce, inertia, biasForce,
      passedInertia, passedBias, h]

theorem calcABMPhase2Part2Child_eq :
    calcABMPhase2Part2Child link child = setInertiaForce link (inertia link + 0)
      (biasForce link + (biasForce child + passedDrive child)) := by
  by_cases h : child.jointType = .fixedJoint <;>
    simp [calcABMPhase2Part2Child, addChildDrive, setInertiaForce, inertia, biasForce, passedDrive,
      h, add_assoc]

/-- A loop over the children that adds an inertia and a force for each of them. -/
theorem foldl_setInertiaForce {step : Link K → Link K → Link K} {A : Link K → BlockInertia K}
    {f : Link K → Spatial K}
    (hstep : ∀ link child, step link child =
      setInertiaForce link (inertia link + A child) (biasForce link + f child))
    (children : List (Link K)) (link : Link K) :
    children.foldl step link = setInertiaForce link (inertia link + (children.map A).sum)
      (biasForce link + (children.map f).sum) := by
  induction children generalizing link with
  | nil => simp [setInertiaForce, inertia, biasForce]
  | cons child children ih =>
    rw [List.foldl_cons, ih, hstep, List.map_cons, List.map_cons, List.sum_cons, List.sum_cons,
      ← add_assoc, ← add_assoc]
    rfl

/-- A link with another joint inertia `hh`, the `dd` it gives, and another `uu`. -/
def setJointInertia (link : Link K) (hh : Spatial K) (uu : K) : Link K :=
  { link with
    hhv := hh.1, hhw := hh.2, dd := link.sv ⬝ᵥ hh.1 + link.sw ⬝ᵥ hh.2 + link.Jm2, uu := uu }

/-- The external force on a link. -/
def externalForce (link : Link K) : Spatial K :=
  (link.fext, link.tauext)

variable (isRoot : Bool) (children : List (Link K)) (link : Link K)

/-- Phase 2 at one link, with the loop over the children summed up. -/
theorem calcABMPhase2Link_eq :
    calcABMPhase2Link isRoot children link =
      let A := inertia link + (children.map passedInertia).sum
      let f := biasForce link - externalForce link +
        (children.map fun c ↦ passedBias c + biasForce c + passedDrive c).sum
      let hh := A.toLin (link.sv, link.sw)
      if ¬isRoot ∧ link.jointType ≠ .fixedJoint then
        setJointInertia (setInertiaForce link A f) hh
          (link.u - (hh.1 ⬝ᵥ link.cv + hh.2 ⬝ᵥ link.cw + link.sv ⬝ᵥ f.1 + link.sw ⬝ᵥ f.2))
      else setInertiaForce link A f := by
  simp only [calcABMPhase2Link, foldl_setInertiaForce calcABMPhase2Child_eq]
  rfl

/-- Part 1 of phase 2 at one link, with the loop over the children summed up. -/
theorem calcABMPhase2Part1Link_eq :
    calcABMPhase2Part1Link isRoot children link =
      let A := inertia link + (children.map passedInertia).sum
      let f := biasForce link + (children.map passedBias).sum
      let hh := A.toLin (link.sv, link.sw)
      if ¬isRoot ∧ link.jointType ≠ .fixedJoint then
        setJointInertia (setInertiaForce link A f) hh
          (-(hh.1 ⬝ᵥ link.cv + hh.2 ⬝ᵥ link.cw))
      else setInertiaForce link A f := by
  simp only [calcABMPhase2Part1Link, foldl_setInertiaForce calcABMPhase2Part1Child_eq]
  rfl

/-- Part 2 of phase 2 at one link, with the loop over the children summed up. -/
theorem calcABMPhase2Part2Link_eq :
    calcABMPhase2Part2Link isRoot children link =
      let f := biasForce link - externalForce link +
        (children.map fun c ↦ biasForce c + passedDrive c).sum
      if ¬isRoot ∧ link.jointType ≠ .fixedJoint then
        { setInertiaForce link (inertia link) f with
          uu := link.uu + (link.u - (link.sv ⬝ᵥ f.1 + link.sw ⬝ᵥ f.2)) }
      else setInertiaForce link (inertia link) f := by
  have hzero : (children.map fun _ ↦ (0 : BlockInertia K)).sum = 0 := by simp
  simp only [calcABMPhase2Part2Link, foldl_setInertiaForce calcABMPhase2Part2Child_eq, hzero,
    add_zero]
  rfl

/-! ### Splitting phase 2 -/

/-- Part 2 at a moving joint, after part 1 has set its inertia, bias force and `uu`. -/
theorem calcABMPhase2Part2Link_setJointInertia {isRoot : Bool} {link : Link K}
    (hjoint : ¬isRoot ∧ link.jointType ≠ .fixedJoint) (children : List (Link K))
    (A : BlockInertia K) (f hh : Spatial K) (uu : K) :
    calcABMPhase2Part2Link isRoot children (setJointInertia (setInertiaForce link A f) hh uu) =
      let f' := f - externalForce link + (children.map fun c ↦ biasForce c + passedDrive c).sum
      setJointInertia (setInertiaForce link A f') hh
        (uu + (link.u - (link.sv ⬝ᵥ f'.1 + link.sw ⬝ᵥ f'.2))) := by
  rw [calcABMPhase2Part2Link_eq]
  exact if_pos hjoint

/-- Part 2 at the root or at a fixed joint, after part 1 has set its inertia and bias force. -/
theorem calcABMPhase2Part2Link_setInertiaForce {isRoot : Bool} {link : Link K}
    (hjoint : ¬(¬isRoot ∧ link.jointType ≠ .fixedJoint)) (children : List (Link K))
    (A : BlockInertia K) (f : Spatial K) :
    calcABMPhase2Part2Link isRoot children (setInertiaForce link A f) =
      setInertiaForce link A
        (f - externalForce link + (children.map fun c ↦ biasForce c + passedDrive c).sum) := by
  rw [calcABMPhase2Part2Link_eq]
  exact if_neg hjoint

/-- One link: with children that pass on the same in both parts, the two parts in sequence do what
phase 2 does at once. -/
theorem calcABMPhase2Part2Link_calcABMPhase2Part1Link {children₁ children₂ : List (Link K)}
    (hA : children₁.map passedInertia = children₂.map passedInertia)
    (hb : children₁.map passedBias = children₂.map passedBias) (link : Link K) :
    calcABMPhase2Part2Link isRoot children₂ (calcABMPhase2Part1Link isRoot children₁ link) =
      calcABMPhase2Link isRoot children₂ link := by
  have hforce : biasForce link + (children₂.map passedBias).sum - externalForce link +
      (children₂.map fun c ↦ biasForce c + passedDrive c).sum =
      biasForce link - externalForce link +
        (children₂.map fun c ↦ passedBias c + biasForce c + passedDrive c).sum := by
    simp only [add_assoc, List.sum_map_add]
    abel
  rw [calcABMPhase2Link_eq, calcABMPhase2Part1Link_eq, hA, hb, ← hforce]
  by_cases hjoint : ¬isRoot ∧ link.jointType ≠ .fixedJoint
  · simp only [if_pos hjoint, calcABMPhase2Part2Link_setJointInertia hjoint]
    refine congrArg (setJointInertia _ _) ?_
    ring
  · simp only [if_neg hjoint, calcABMPhase2Part2Link_setInertiaForce hjoint]

theorem calcABMPhase2Part2Link_frame :
    passedInertia (calcABMPhase2Part2Link isRoot children link) = passedInertia link ∧
      passedBias (calcABMPhase2Part2Link isRoot children link) = passedBias link := by
  simp only [calcABMPhase2Part2Link, foldl_setInertiaForce calcABMPhase2Part2Child_eq]
  split_ifs <;> simp [passedInertia, passedBias, inertia, setInertiaForce]

/-- Splitting phase 2, at a link of the tree. -/
theorem calcABMPhase2Part2_apply_of_mem (t : LinkTree ι) (s : Store ι K) : ∀ i ∈ t.links,
    calcABMPhase2Part2 t (calcABMPhase2Part1 t s) i = calcABMPhase2 t s i := by
  set s₁ := calcABMPhase2Part1 t s with hs₁
  -- what a link passes on is settled by part 1 and kept by part 2
  have hkeep : ∀ i, passedInertia (calcABMPhase2Part2 t s₁ i) = passedInertia (s₁ i) ∧
      passedBias (calcABMPhase2Part2 t s₁ i) = passedBias (s₁ i) := fun i ↦
    ⟨sweep_field passedInertia (fun _ _ ↦ (calcABMPhase2Part2Link_frame _ _ _).1) _ _ i,
      sweep_field passedBias (fun _ _ ↦ (calcABMPhase2Part2Link_frame _ _ _).2) _ _ i⟩
  refine t.children_induction fun i hi ih ↦ ?_
  have hchildren : (t.children i).map (calcABMPhase2Part2 t s₁) =
      (t.children i).map (calcABMPhase2 t s) := List.map_congr_left ih
  have hA : ((t.children i).map s₁).map passedInertia =
      ((t.children i).map (calcABMPhase2 t s)).map passedInertia := by
    rw [← hchildren, List.map_map, List.map_map]
    exact List.map_congr_left fun c _ ↦ (hkeep c).1.symm
  have hb : ((t.children i).map s₁).map passedBias =
      ((t.children i).map (calcABMPhase2 t s)).map passedBias := by
    rw [← hchildren, List.map_map, List.map_map]
    exact List.map_congr_left fun c _ ↦ (hkeep c).2.symm
  calc calcABMPhase2Part2 t s₁ i
      = calcABMPhase2Part2Link (decide (i = t.root))
          ((t.children i).map (calcABMPhase2Part2 t s₁)) (s₁ i) := t.reverseLoop_eq _ _ hi
    _ = calcABMPhase2Part2Link (decide (i = t.root)) ((t.children i).map (calcABMPhase2 t s))
          (calcABMPhase2Part1Link (decide (i = t.root)) ((t.children i).map s₁) (s i)) := by
        rw [hchildren, hs₁, calcABMPhase2Part1, t.reverseLoop_eq _ _ hi]
    _ = calcABMPhase2Link (decide (i = t.root)) ((t.children i).map (calcABMPhase2 t s))
          (s i) := calcABMPhase2Part2Link_calcABMPhase2Part1Link _ hA hb _
    _ = calcABMPhase2 t s i := (t.reverseLoop_eq _ _ hi).symm

/-- Splitting phase 2, cell by cell. -/
theorem calcABMPhase2Part2_apply (t : LinkTree ι) (s : Store ι K) (i : ι) :
    calcABMPhase2Part2 t (calcABMPhase2Part1 t s) i = calcABMPhase2 t s i := by
  by_cases hi : i ∈ t.links
  · exact calcABMPhase2Part2_apply_of_mem t s i hi
  · rw [calcABMPhase2Part2, calcABMPhase2, t.reverseLoop_of_notMem _ _ hi,
      t.reverseLoop_of_notMem _ _ hi, calcABMPhase2Part1, t.reverseLoop_of_notMem _ _ hi]

/-- **Splitting phase 2 changes nothing.** On every tree and every state, phase 2 part 1 followed by
part 2 leaves every link as phase 2 does. -/
theorem calcABMPhase2Part2_calcABMPhase2Part1 (t : LinkTree ι) (s : Store ι K) :
    calcABMPhase2Part2 t (calcABMPhase2Part1 t s) = calcABMPhase2 t s :=
  funext (calcABMPhase2Part2_apply t s)

end ForwardDynamicsABM

end OpenHRP
