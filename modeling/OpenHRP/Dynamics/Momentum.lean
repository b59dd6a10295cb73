import OpenHRP.Dynamics.BodyMotion
import OpenHRP.Dynamics.ForwardDynamicsABM
import OpenHRP.Model.Body

/-!
# The momentum of a body, computed twice

`Body::calcTotalMomentum` adds up the momenta of the links. `Body::calcTotalMomentumFromJacobian`
multiplies the joint rates and the root velocity with two Jacobians, which it builds from the
mass, the centre of mass and the inertia about its own centre of mass of every subtree; these come
from the recursions `Link::calcSubMassCM` and `Link::calcSubMassInertia` over the links.

The second result is the first, with the angular momentum taken about the centre of mass of the
body (`calcTotalMomentumFromJacobian_eq`).

A resized matrix holds what its memory held; the columns that are not written are parameters.
-/

open Matrix

namespace OpenHRP

variable {ι K : Type*}

/-! ### Subtree mass and inertia -/

section SubMass

variable [DecidableEq ι] [Field K]

/-- `subm = m; submwc = m*wc;` -/
def startSubMass (link : Link K) : Link K :=
  { link with subm := link.m, submwc := link.m • link.wc }

/-- `subm += child->subm; submwc += child->submwc;` -/
def addSubMass (link child : Link K) : Link K :=
  { link with subm := link.subm + child.subm, submwc := link.submwc + child.submwc }

/-- The loop over the children in `calcSubMassCM` of `link`, with the calls it makes. -/
def calcSubMassCMChildren (link : ι) : LinkPtr ι → Store ι K → Store ι K
  | .null, s => s
  | .link l child sibling, s =>
    let s := calcSubMassCMChildren l child (Function.update s l (startSubMass (s l)))
    calcSubMassCMChildren link sibling (Function.update s link (addSubMass (s link) (s l)))

/-- `Link::calcSubMassCM`. -/
def calcSubMassCM (t : LinkTree ι) (link : ι) (s : Store ι K) : Store ι K :=
  calcSubMassCMChildren link (t.childPtr link)
    (Function.update s link (startSubMass (s link)))

/-- `m*hat(r).transpose()*hat(r)`: the inertia of a mass at `r`. -/
def pointInertia (m : K) (r : Vector3 K) : Matrix33 K :=
  m • ((hat r)ᵀ * hat r)

/-- The terms of the link itself in `calcSubMassInertia`. -/
def ownSubMassInertia [DecidableEq K] (link : Link K) : Matrix33 K :=
  let subIw := link.R * link.I * link.Rᵀ
  if link.subm ≠ 0 then subIw + pointInertia link.m (link.wc - link.subm⁻¹ • link.submwc)
  else subIw

/-- The loop over the children in `calcSubMassInertia` of `link`, with the calls it makes. -/
def calcSubMassInertiaChildren [DecidableEq K] (s : Store ι K) (link : ι) :
    LinkPtr ι → Matrix33 K → Matrix33 K
  | .null, subIw => subIw
  | .link l child sibling, subIw =>
    let lsubIw := calcSubMassInertiaChildren s l child (ownSubMassInertia (s l))
    let subIw := subIw + lsubIw
    let subIw := if (s l).subm ≠ 0 then
        subIw + pointInertia (s l).subm
          ((s l).subm⁻¹ • (s l).submwc - (s link).subm⁻¹ • (s link).submwc)
      else subIw
    calcSubMassInertiaChildren s link sibling subIw

/-- `Link::calcSubMassInertia`. -/
def calcSubMassInertia [DecidableEq K] (t : LinkTree ι) (s : Store ι K) (link : ι) :
    Matrix33 K :=
  calcSubMassInertiaChildren s link (t.childPtr link) (ownSubMassInertia (s link))

end SubMass

/-! ### The two computations -/

section Body

variable [DecidableEq ι] [Field K]

/-- The links of a body and its total mass. -/
structure BodyState (ι K : Type*) where
  links : Store ι K
  totalMass : K

/-- `link->wc = link->p + link->R * link->c;` -/
def updateWC (link : Link K) : Link K :=
  { link with wc := link.p + link.R *ᵥ link.c }

/-- `Body::calcCM`: the centres of mass of the links, the total mass, and the centre of mass. -/
def calcCM (t : LinkTree ι) (body : BodyState ι K) : BodyState ι K × Vector3 K :=
  let s := sweep (fun i s ↦ updateWC (s i)) t.links body.links
  let mc := (t.links.map fun i ↦ (s i).m • (s i).wc).sum
  let totalMass := (t.links.map fun i ↦ (s i).m).sum
  (⟨s, totalMass⟩, totalMass⁻¹ • mc)

/-- The momentum of a link in `calcTotalMomentum`. -/
def linkMomentum (link : Link K) : Vector3 K × Vector3 K :=
  let dwc := link.v + cross link.w (link.R *ᵥ link.c)
  let P := link.m • dwc
  let Llocal := (link.I * link.Rᵀ) *ᵥ link.w
  let L := cross link.wc P + link.R *ᵥ Llocal
  (P, L)

/-- `Body::calcTotalMomentum`. -/
def calcTotalMomentum (t : LinkTree ι) (s : Store ι K) : Vector3 K × Vector3 K :=
  t.links.foldl (fun out i ↦ out + linkMomentum (s i)) 0

/-- The column of a joint in `calcCMJacobian`. -/
def cmJacobianColumn (totalMass : K) (unwritten : Vector3 K) (j : Link K) : Vector3 K :=
  match j.jointType with
  | .rotationalJoint =>
    let omega := j.R *ᵥ j.a
    let arm := totalMass⁻¹ • (j.submwc - j.subm • j.p)
    cross omega arm
  | .slideJoint => (j.subm / totalMass) • (j.R *ᵥ j.d)
  | .fixedJoint | .freeJoint => unwritten

/-- The column of a joint in `calcAngularMomentumJacobian`, about the centre of mass of its
subtree; `Mcol` is the linear one. -/
def angularMomentumJacobianColumn [DecidableEq K] (Mcol unwritten : Vector3 K)
    (jsubIw : Matrix33 K) (j : Link K) : Vector3 K :=
  match j.jointType with
  | .rotationalJoint =>
    let omega := j.R *ᵥ j.a
    let dp := jsubIw *ᵥ omega
    if j.subm ≠ 0 then dp + cross (j.subm⁻¹ • j.submwc) Mcol else dp
  | .slideJoint => if j.subm ≠ 0 then cross (j.subm⁻¹ • j.submwc) Mcol else unwritten
  | .fixedJoint | .freeJoint => unwritten

variable {n : ℕ} (t : LinkTree ι) (joint : Fin n → Option ι)

/-- `Body::calcCMJacobian` without a base link: a column for every joint, then the columns of the
root velocities. -/
def calcCMJacobian (unwritten : Fin n → Vector3 K) (body : BodyState ι K) :
    BodyState ι K × Matrix (Fin 3) (Fin n ⊕ Fin 3 ⊕ Fin 3) K :=
  let s := calcSubMassCM t t.root body.links
  let root := s t.root
  let dp := body.totalMass⁻¹ • root.submwc - root.p
  (⟨s, body.totalMass⟩, Matrix.of fun r ↦ Sum.elim
    (fun k ↦ (joint k).elim (unwritten k)
      (fun j ↦ cmJacobianColumn body.totalMass (unwritten k) (s j)) r)
    (Sum.elim ((1 : Matrix33 K) r)
      (!![0, dp 2, -dp 1; -dp 2, 0, dp 0; dp 1, -dp 0, 0] r)))

/-- `Body::calcAngularMomentumJacobian` without a base link. -/
def calcAngularMomentumJacobian [DecidableEq K] (unwrittenM unwrittenH : Fin n → Vector3 K)
    (body : BodyState ι K) : BodyState ι K × Matrix (Fin 3) (Fin n ⊕ Fin 3 ⊕ Fin 3) K :=
  let r := calcCMJacobian t joint unwrittenM body
  let M : Fin n → Vector3 K := fun k i ↦ r.1.totalMass * r.2 i (.inl k)
  let s := calcSubMassCM t t.root r.1.links
  let Iw := calcSubMassInertia t s t.root
  let cm := calcCM t ⟨s, r.1.totalMass⟩
  let column := fun k ↦ (joint k).elim (unwrittenH k) fun j ↦
    angularMomentumJacobianColumn (M k) (unwrittenH k) (calcSubMassInertia t s j) (s j)
  (cm.1, Matrix.of fun r ↦ Sum.elim (fun k ↦ (column k - hat cm.2 *ᵥ M k) r)
    (Sum.elim ((0 : Matrix33 K) r) (Iw r)))

/-- `Body::calcTotalMomentumFromJacobian`. -/
def calcTotalMomentumFromJacobian [DecidableEq K]
    (unwrittenJ unwrittenM unwrittenH : Fin n → Vector3 K) (body : BodyState ι K) :
    Vector3 K × Vector3 K :=
  let J := calcCMJacobian t joint unwrittenJ body
  let H := calcAngularMomentumJacobian t joint unwrittenM unwrittenH J.1
  let s := H.1.links
  let v := Sum.elim (fun k ↦ (joint k).elim 0 fun j ↦ (s j).dq)
    (Sum.elim (s t.root).v (s t.root).w)
  (H.1.totalMass • J.2 *ᵥ v, H.2 *ᵥ v)

end Body

/-! ### What the recursions compute -/

section SubMass

variable [DecidableEq ι] [Field K] {t : LinkTree ι}

/-- What a link adds to the mass of a subtree and to the sum of `m * wc`. -/
def massOf (link : Link K) : K × Vector3 K :=
  (link.m, link.m • link.wc)

/-- The link with its subtree mass. -/
def setSubMass (link : Link K) (x : K × Vector3 K) : Link K :=
  { link with subm := x.1, submwc := x.2 }

theorem massOf_startSubMass (s : Store ι K) (i j : ι) :
    massOf (Function.update s j (startSubMass (s j)) i) = massOf (s i) := by
  rcases eq_or_ne i j with rfl | h
  · rw [Function.update_self]
    rfl
  · rw [Function.update_of_ne h]

/-- The loop over the children adds the masses below to `link` and leaves every link below with
the mass of its subtree. -/
theorem calcSubMassCMChildren_eq {g : ι → K × Vector3 K} {link : ι} {ptr : LinkPtr ι}
    (hptr : t.child.Meets ptr) (hnd : (link :: ptr.links).Nodup) {s : Store ι K}
    (hg : ∀ i, massOf (s i) = g i) :
    let s' := calcSubMassCMChildren link ptr s
    s' link = setSubMass (s link) (((s link).subm, (s link).submwc) + ptr.sum g) ∧
      (∀ i ∈ ptr.links, s' i = setSubMass (s i) (t.subtreeSum g i)) ∧
      ∀ i, i ≠ link → i ∉ ptr.links → s' i = s i := by
  induction ptr generalizing link s with
  | null => exact ⟨by rw [LinkPtr.sum, add_zero]; rfl, by simp, fun i _ _ ↦ rfl⟩
  | link l c sib ihc ihs =>
    simp only [LinkPtr.links_link, List.nodup_cons, List.mem_cons, List.mem_append, not_or,
      List.nodup_append] at hnd
    obtain ⟨⟨hl, hlinkc, hlinks⟩, ⟨hlc, hls⟩, hc, hs, hcs⟩ := hnd
    -- the three states in between
    set s₁ := Function.update s l (startSubMass (s l)) with hs₁
    set s₂ := calcSubMassCMChildren l c s₁ with hs₂
    set s₃ := Function.update s₂ link (addSubMass (s₂ link) (s₂ l)) with hs₃
    have hg₁ : ∀ i, massOf (s₁ i) = g i := fun i ↦ (massOf_startSubMass s i l).trans (hg i)
    obtain ⟨h₂l, h₂c, h₂⟩ := ihc hptr.below.1 (List.nodup_cons.2 ⟨hlc, hc⟩) hg₁
    have hg₂ : ∀ i, massOf (s₂ i) = g i := fun i ↦ by
      rw [← hg₁]
      rcases eq_or_ne i l with rfl | hi
      · rw [hs₂, h₂l]
        rfl
      · by_cases hic : i ∈ c.links
        · rw [hs₂, h₂c i hic]
          rfl
        · rw [hs₂, h₂ i hi hic]
    have hg₃ : ∀ i, massOf (s₃ i) = g i := fun i ↦ by
      rcases eq_or_ne i link with rfl | hi
      · rw [hs₃, Function.update_self, ← hg₂]
        rfl
      · rw [hs₃, Function.update_of_ne hi, hg₂]
    obtain ⟨h₃l, h₃s, h₃⟩ := ihs hptr.below.2 (List.nodup_cons.2 ⟨hlinks, hs⟩) hg₃
    have hsub : t.subtreeSum g l = g l + c.sum g := by
      rw [LinkTree.subtreeSum, t.childPtr_of_meets hptr]
    have hl₁ : s₁ l = startSubMass (s l) := Function.update_self _ _ _
    have hl₂ : s₂ l = setSubMass (s l) (t.subtreeSum g l) := by
      rw [hs₂, h₂l, hl₁, hsub, ← hg l]
      rfl
    have hlink₂ : s₂ link = s link := by
      rw [hs₂, h₂ link hl hlinkc, hs₁, Function.update_of_ne hl]
    refine ⟨?_, fun i hi ↦ ?_, fun i hi hi' ↦ ?_⟩
    · show calcSubMassCMChildren link sib s₃ link = _
      rw [h₃l, hs₃, Function.update_self, hlink₂, hl₂, LinkPtr.sum, ← hsub, ← add_assoc]
      rfl
    · show calcSubMassCMChildren link sib s₃ i = _
      rcases List.mem_cons.1 hi with rfl | hi
      · rw [h₃ i (Ne.symm hl) hls, hs₃, Function.update_of_ne (Ne.symm hl), hl₂]
      · rcases List.mem_append.1 hi with hi | hi
        · have hne : i ≠ link := fun e ↦ hlinkc (e ▸ hi)
          have hnel : i ≠ l := fun e ↦ hlc (e ▸ hi)
          rw [h₃ i hne fun h ↦ hcs i hi i h rfl, hs₃, Function.update_of_ne hne, hs₂, h₂c i hi, hs₁,
            Function.update_of_ne hnel]
        · have hne : i ≠ link := fun e ↦ hlinks (e ▸ hi)
          have hnel : i ≠ l := fun e ↦ hls (e ▸ hi)
          rw [h₃s i hi, hs₃, Function.update_of_ne hne, hs₂,
            h₂ i hnel fun h ↦ hcs i h i hi rfl, hs₁, Function.update_of_ne hnel]
    · show calcSubMassCMChildren link sib s₃ i = _
      simp only [LinkPtr.links_link, List.mem_cons, List.mem_append, not_or] at hi'
      rw [h₃ i hi hi'.2.2, hs₃, Function.update_of_ne hi, hs₂, h₂ i hi'.1 hi'.2.1, hs₁,
        Function.update_of_ne hi'.1]

/-- `calcSubMassCM` of the root leaves in every link of the tree the mass of its subtree. -/
theorem calcSubMassCM_root (s : Store ι K) {i : ι} (hi : i ∈ t.links) :
    calcSubMassCM t t.root s i =
      setSubMass (s i) (t.subtreeSum (fun i ↦ massOf (s i)) i) := by
  have hroot : t.childPtr t.root = t.child := by rw [LinkTree.childPtr, if_pos rfl]
  obtain ⟨h₁, h₂, -⟩ :=
    calcSubMassCMChildren_eq (LinkPtr.meets_self t.child) t.nodup
      fun i ↦ massOf_startSubMass s i t.root
  rw [calcSubMassCM, hroot]
  rcases List.mem_cons.1 hi with rfl | hi
  · rw [h₁, LinkTree.subtreeSum, hroot, Function.update_self]
    rfl
  · have hne : i ≠ t.root := fun e ↦ t.root_notMem_child (e ▸ hi)
    rw [h₂ i hi, Function.update_of_ne hne]

theorem calcSubMassCM_of_notMem (s : Store ι K) {i : ι} (hi : i ∉ t.links) :
    calcSubMassCM t t.root s i = s i := by
  rw [LinkTree.links, List.mem_cons, not_or] at hi
  have hroot : t.childPtr t.root = t.child := by rw [LinkTree.childPtr, if_pos rfl]
  obtain ⟨-, -, h⟩ :=
    calcSubMassCMChildren_eq (LinkPtr.meets_self t.child) t.nodup
      fun i ↦ massOf_startSubMass s i t.root
  rw [calcSubMassCM, hroot, h i hi.1 hi.2, Function.update_of_ne hi.1]

end SubMass

/-! ### Moving the reference point -/

section Steiner

variable [Field K]

theorem pointInertia_mulVec (m : K) (r x : Vector3 K) :
    pointInertia m r *ᵥ x = m • r ⨯₃ (x ⨯₃ r) := by
  rw [pointInertia, smul_mulVec, hat_transpose_mul_mulVec]

/-- How the inertia of a mass `m` changes when the reference point moves by `d`, in terms of `m` and
of `m` times its position. -/
def steinerMap (C d : Vector3 K) : K × Vector3 K →+ Matrix33 K :=
  AddMonoidHom.mk' (fun x ↦ pointInertia x.1 d +
    ((hat (x.2 - x.1 • C))ᵀ * hat d + (hat d)ᵀ * hat (x.2 - x.1 • C))) fun x y ↦ by
      have hsub : (x + y).2 - (x + y).1 • C = (x.2 - x.1 • C) + (y.2 - y.1 • C) := by
        rw [Prod.snd_add, Prod.fst_add]
        module
      rw [hsub, hat_add, transpose_add, add_mul, mul_add, pointInertia, pointInertia, pointInertia,
        Prod.fst_add, add_smul]
      abel

theorem pointInertia_add (m : K) (x C d : Vector3 K) :
    pointInertia m (x - C + d) = pointInertia m (x - C) + steinerMap C d (m, m • x) := by
  have hm : m • x - m • C = m • (x - C) := (smul_sub m x C).symm
  show pointInertia m (x - C + d) = pointInertia m (x - C) + (pointInertia m d +
    ((hat (m • x - m • C))ᵀ * hat d + (hat d)ᵀ * hat (m • x - m • C)))
  rw [hm, hat_smul, pointInertia, pointInertia, pointInertia, hat_add, transpose_add,
    transpose_smul, add_mul, mul_add, mul_add, smul_mul_assoc, mul_smul_comm]
  module

/-- The terms linear in the position vanish at the centre of mass. -/
theorem steinerMap_centerOfMass {M : K} {Q : Vector3 K} (hM : M ≠ 0) (d : Vector3 K) :
    steinerMap (M⁻¹ • Q) d (M, Q) = pointInertia M d := by
  have hzero : Q - M • (M⁻¹ • Q) = 0 := by
    rw [smul_smul, mul_inv_cancel₀ hM, one_smul, sub_self]
  show pointInertia M d + ((hat (Q - M • (M⁻¹ • Q)))ᵀ * hat d +
    (hat d)ᵀ * hat (Q - M • (M⁻¹ • Q))) = pointInertia M d
  have hhat : hat (0 : Vector3 K) = 0 := by simpa using hat_smul (0 : K) 0
  rw [hzero, hhat, transpose_zero, zero_mul, mul_zero, add_zero, add_zero]

end Steiner

/-! ### Inertia about the centre of mass -/

section Inertia

variable [DecidableEq ι] [Field K] [DecidableEq K] {t : LinkTree ι} {s : Store ι K}

/-- Every link carries the mass of its subtree, which is not zero. -/
structure HasSubMass (t : LinkTree ι) (s : Store ι K) : Prop where
  eq : ∀ i ∈ t.links,
    ((s i).subm, (s i).submwc) = t.subtreeSum (fun i ↦ massOf (s i)) i
  ne_zero : ∀ i ∈ t.links, (s i).subm ≠ 0

omit [DecidableEq ι] [DecidableEq K] in
/-- The centre of mass of a subtree. -/
def subCM (link : Link K) : Vector3 K :=
  link.subm⁻¹ • link.submwc

omit [DecidableEq ι] [DecidableEq K] in
/-- The inertia of a link about the point `C`. -/
def inertiaAbout (C : Vector3 K) (link : Link K) : Matrix33 K :=
  link.R * link.I * link.Rᵀ + pointInertia link.m (link.wc - C)

omit [DecidableEq K] in
/-- Steiner's theorem for a subtree. -/
theorem HasSubMass.steiner (h : HasSubMass t s) {i : ι} (hi : i ∈ t.links) (C : Vector3 K) :
    t.subtreeSum (fun j ↦ inertiaAbout C (s j)) i =
      t.subtreeSum (fun j ↦ inertiaAbout (subCM (s i)) (s j)) i +
        pointInertia (s i).subm (subCM (s i) - C) := by
  set D := subCM (s i) with hD
  have hlink : ∀ j, inertiaAbout C (s j) =
      inertiaAbout D (s j) + steinerMap D (D - C) (massOf (s j)) := fun j ↦ by
    rw [inertiaAbout, inertiaAbout, massOf, add_assoc, ← pointInertia_add]
    congr 2
    abel
  have hsteiner : t.subtreeSum (fun j ↦ steinerMap D (D - C) (massOf (s j))) i =
      pointInertia (s i).subm (D - C) := by
    rw [← t.map_subtreeSum, ← h.eq i hi, hD, subCM, steinerMap_centerOfMass (h.ne_zero i hi)]
  rw [← hsteiner, ← t.subtreeSum_add]
  exact t.subtreeSum_congr fun j _ ↦ hlink j

/-- The loop over the children adds the inertias of everything below, about the centre of mass of
the subtree of `link`. -/
theorem HasSubMass.calcSubMassInertiaChildren_eq (h : HasSubMass t s) {link : ι}
    {ptr : LinkPtr ι} (hptr : t.child.Meets ptr) (subIw : Matrix33 K) :
    calcSubMassInertiaChildren s link ptr subIw =
      subIw + ptr.sum fun j ↦ inertiaAbout (subCM (s link)) (s j) := by
  induction ptr generalizing link subIw with
  | null => rw [calcSubMassInertiaChildren, LinkPtr.sum, add_zero]
  | link l c sib ihc ihs =>
    have hl : l ∈ t.links := List.mem_cons_of_mem _ hptr.mem
    have hne := h.ne_zero l hl
    have hown : ownSubMassInertia (s l) = inertiaAbout (subCM (s l)) (s l) := by
      rw [ownSubMassInertia, if_pos hne]
      rfl
    have hsub : ∀ g : ι → Matrix33 K, t.subtreeSum g l = g l + c.sum g := fun g ↦ by
      rw [LinkTree.subtreeSum, t.childPtr_of_meets hptr]
    have hchild : calcSubMassInertiaChildren s l c (ownSubMassInertia (s l)) =
        t.subtreeSum (fun j ↦ inertiaAbout (subCM (s l)) (s j)) l := by
      rw [ihc hptr.below.1, hown, hsub]
    rw [calcSubMassInertiaChildren, hchild, if_pos hne, ihs hptr.below.2, add_assoc subIw]
    have hmoved := h.steiner hl (subCM (s link))
    rw [hsub] at hmoved
    rw [LinkPtr.sum, hmoved]
    simp only [subCM, add_assoc]

/-- `calcSubMassInertia` computes the inertia of the subtree about its centre of mass. -/
theorem HasSubMass.calcSubMassInertia_eq (h : HasSubMass t s) {i : ι} (hi : i ∈ t.links) :
    calcSubMassInertia t s i = t.subtreeSum (fun j ↦ inertiaAbout (subCM (s i)) (s j)) i := by
  have hown : ownSubMassInertia (s i) = inertiaAbout (subCM (s i)) (s i) := by
    rw [ownSubMassInertia, if_pos (h.ne_zero i hi)]
    rfl
  rw [calcSubMassInertia, h.calcSubMassInertiaChildren_eq (t.meets_childPtr i), hown,
    LinkTree.subtreeSum]

end Inertia

/-! ### The momentum of a subtree -/

section Momentum

variable [DecidableEq ι] [Field K] [DecidableEq K] {t : LinkTree ι} {s : Store ι K}

/-- The momentum of a link under the spatial velocity `x`, from its mass, the sum of `m * wc` and
its inertia about the point `C`. -/
def momentumMap (C : Vector3 K) (x : Spatial K) :
    (K × Vector3 K) × Matrix33 K →+ Spatial K :=
  AddMonoidHom.mk' (fun y ↦ (y.1.1 • x.1 + x.2 ⨯₃ y.1.2,
    y.2 *ᵥ x.2 + C ⨯₃ (y.1.1 • x.1 + x.2 ⨯₃ y.1.2) +
      (y.1.2 - y.1.1 • C) ⨯₃ (x.1 + x.2 ⨯₃ C))) fun y z ↦ by
    have hP : (y + z).1.1 • x.1 + x.2 ⨯₃ (y + z).1.2 =
        (y.1.1 • x.1 + x.2 ⨯₃ y.1.2) + (z.1.1 • x.1 + x.2 ⨯₃ z.1.2) := by
      rw [Prod.fst_add, Prod.fst_add, Prod.snd_add, add_smul, LinearMap.map_add]
      abel
    have hC : (y + z).1.2 - (y + z).1.1 • C =
        (y.1.2 - y.1.1 • C) + (z.1.2 - z.1.1 • C) := by
      rw [Prod.fst_add, Prod.fst_add, Prod.snd_add]
      module
    refine Prod.ext hP ?_
    show (y + z).2 *ᵥ x.2 + C ⨯₃ ((y + z).1.1 • x.1 + x.2 ⨯₃ (y + z).1.2) +
        ((y + z).1.2 - (y + z).1.1 • C) ⨯₃ (x.1 + x.2 ⨯₃ C) =
      y.2 *ᵥ x.2 + C ⨯₃ (y.1.1 • x.1 + x.2 ⨯₃ y.1.2) +
          (y.1.2 - y.1.1 • C) ⨯₃ (x.1 + x.2 ⨯₃ C) +
        (z.2 *ᵥ x.2 + C ⨯₃ (z.1.1 • x.1 + x.2 ⨯₃ z.1.2) +
          (z.1.2 - z.1.1 • C) ⨯₃ (x.1 + x.2 ⨯₃ C))
    rw [hP, hC, Prod.snd_add, add_mulVec, LinearMap.map_add, LinearMap.map_add₂]
    abel

omit [DecidableEq ι] [DecidableEq K] in
theorem linkInertia_toLin_eq_momentumMap (C : Vector3 K) (link : Link K)
    (hwc : link.wc = centerOfMass link) (x : Spatial K) :
    (linkInertia link).toLin x = momentumMap C x (massOf link, inertiaAbout C link) := by
  rw [linkInertia_toLin, ← hwc]
  set c := link.wc with hc
  have hP : link.m • (x.1 + x.2 ⨯₃ c) = link.m • x.1 + x.2 ⨯₃ (link.m • c) := by
    rw [LinearMap.map_smul, smul_add]
  refine Prod.ext hP ?_
  show (link.R * link.I * link.Rᵀ) *ᵥ x.2 + c ⨯₃ (link.m • (x.1 + x.2 ⨯₃ c)) =
    (link.R * link.I * link.Rᵀ + pointInertia link.m (c - C)) *ᵥ x.2 +
      C ⨯₃ (link.m • x.1 + x.2 ⨯₃ (link.m • c)) +
      (link.m • c - link.m • C) ⨯₃ (x.1 + x.2 ⨯₃ C)
  have hd : x.1 + x.2 ⨯₃ c = x.1 + x.2 ⨯₃ C + x.2 ⨯₃ (c - C) := by
    rw [LinearMap.map_sub]
    abel
  have hsplit : c ⨯₃ (link.m • (x.1 + x.2 ⨯₃ c)) =
      (c - C) ⨯₃ (link.m • (x.1 + x.2 ⨯₃ c)) + C ⨯₃ (link.m • (x.1 + x.2 ⨯₃ c)) := by
    rw [← LinearMap.map_add₂, sub_add_cancel]
  have hrel : (c - C) ⨯₃ (link.m • (x.1 + x.2 ⨯₃ c)) =
      (link.m • (c - C)) ⨯₃ (x.1 + x.2 ⨯₃ C) + link.m • (c - C) ⨯₃ (x.2 ⨯₃ (c - C)) := by
    rw [hd, LinearMap.map_smul, LinearMap.map_add, smul_add, LinearMap.map_smul₂]
  rw [← hP, add_mulVec, pointInertia_mulVec, ← smul_sub, hsplit, hrel]
  abel

/-- The momentum of a subtree: that of its mass, and that of its rotation about its centre of
mass. -/
theorem HasSubMass.subtreeInertia_apply (h : HasSubMass t s)
    (hwc : ∀ i ∈ t.links, (s i).wc = centerOfMass (s i)) {i : ι} (hi : i ∈ t.links)
    (x : Spatial K) :
    subtreeInertia t s i x =
      ((s i).subm • x.1 + x.2 ⨯₃ (s i).submwc,
        calcSubMassInertia t s i *ᵥ x.2 +
          subCM (s i) ⨯₃ ((s i).subm • x.1 + x.2 ⨯₃ (s i).submwc)) := by
  set C := subCM (s i) with hC
  have hzero : (s i).submwc - (s i).subm • C = 0 := by
    rw [hC, subCM, smul_smul, mul_inv_cancel₀ (h.ne_zero i hi), one_smul, sub_self]
  have hpair : t.subtreeSum (fun j ↦ (massOf (s j), inertiaAbout C (s j))) i =
      (((s i).subm, (s i).submwc), calcSubMassInertia t s i) := by
    refine Prod.ext ?_ ?_
    · rw [h.eq i hi]
      exact t.map_subtreeSum (AddMonoidHom.fst (K × Vector3 K) (Matrix33 K))
        (fun j ↦ (massOf (s j), inertiaAbout C (s j))) i
    · rw [h.calcSubMassInertia_eq hi]
      exact t.map_subtreeSum (AddMonoidHom.snd (K × Vector3 K) (Matrix33 K))
        (fun j ↦ (massOf (s j), inertiaAbout C (s j))) i
  calc subtreeInertia t s i x
      = t.subtreeSum (fun j ↦ momentumMap C x (massOf (s j), inertiaAbout C (s j))) i := by
        rw [OpenHRP.subtreeInertia_apply]
        exact t.subtreeSum_congr fun j hj ↦ linkInertia_toLin_eq_momentumMap C (s j)
          (hwc j ((t.below_sublist hi).subset hj)) x
    _ = momentumMap C x (((s i).subm, (s i).submwc), calcSubMassInertia t s i) := by
        rw [← t.map_subtreeSum, hpair]
    _ = _ := by
        show (_, calcSubMassInertia t s i *ᵥ x.2 +
          C ⨯₃ ((s i).subm • x.1 + x.2 ⨯₃ (s i).submwc) +
          ((s i).submwc - (s i).subm • C) ⨯₃ (x.1 + x.2 ⨯₃ C)) = _
        rw [hzero, LinearMap.map_zero₂, add_zero]

end Momentum

/-! ### Bodies ready for the Jacobians -/

section Prepared

variable [DecidableEq ι] [Field K] {t : LinkTree ι} {body : BodyState ι K}

/-- Centres of mass, subtree masses and total mass are up to date. -/
structure Prepared (t : LinkTree ι) (body : BodyState ι K) : Prop where
  wc : ∀ i ∈ t.links, (body.links i).wc = centerOfMass (body.links i)
  subMass : HasSubMass t body.links
  totalMass : body.totalMass = (body.links t.root).subm

variable {s : Store ι K}

theorem HasSubMass.root_eq (h : HasSubMass t s) :
    (s t.root).subm = (t.links.map fun i ↦ (s i).m).sum ∧
      (s t.root).submwc = (t.links.map fun i ↦ (s i).m • (s i).wc).sum := by
  have hroot := h.eq t.root t.root_mem
  rw [t.subtreeSum_root] at hroot
  constructor
  · calc (s t.root).subm = ((t.links.map fun i ↦ massOf (s i)).sum).1 := congrArg Prod.fst hroot
      _ = _ := by
        rw [← AddMonoidHom.coe_fst, map_list_sum, List.map_map]
        rfl
  · calc (s t.root).submwc = ((t.links.map fun i ↦ massOf (s i)).sum).2 :=
        congrArg Prod.snd hroot
      _ = _ := by
        rw [← AddMonoidHom.coe_snd, map_list_sum, List.map_map]
        rfl

/-- Up to date, `calcSubMassCM` changes nothing. -/
theorem HasSubMass.calcSubMassCM_eq (h : HasSubMass t s) :
    calcSubMassCM t t.root s = s := by
  refine funext fun i ↦ ?_
  by_cases hi : i ∈ t.links
  · rw [calcSubMassCM_root s hi, ← h.eq i hi]
    rfl
  · exact calcSubMassCM_of_notMem s hi

/-- Up to date, `calcCM` changes nothing and returns the centre of mass of the root's subtree. -/
theorem Prepared.calcCM_eq (h : Prepared t body) :
    calcCM t body = (body, subCM (body.links t.root)) := by
  have hs : sweep (fun i s ↦ updateWC (s i)) t.links body.links = body.links := by
    refine sweep_eq_self fun i hi ↦ ?_
    show { body.links i with wc := centerOfMass (body.links i) } = body.links i
    rw [← h.wc i hi]
  obtain ⟨hm, hmwc⟩ := h.subMass.root_eq
  rw [calcCM, hs, ← hm, ← hmwc, ← h.totalMass, subCM, ← h.totalMass]

/-- What `calcCM` leaves in a link. -/
theorem calcCM_links {i : ι} (hi : i ∈ t.links) :
    (calcCM t body).1.links i = updateWC (body.links i) := by
  have hloc : LocalTo (fun _ ↦ []) fun i (s : Store ι K) ↦ updateWC (s i) := fun i s s' h _ ↦
    congrArg updateWC h
  show sweep _ t.links body.links i = _
  rw [sweep_eq_step hloc t.links_nodup (by simp [ReadsEarlier]) (by simp) _ hi,
    Function.update_self]

/-- `calcCM` and `calcSubMassCM` make a body ready, if no subtree is without mass. -/
theorem prepared_calcSubMassCM
    (hne : ∀ i ∈ t.links, t.subtreeSum (fun j ↦ (body.links j).m) i ≠ 0) :
    Prepared t ⟨calcSubMassCM t t.root (calcCM t body).1.links, (calcCM t body).1.totalMass⟩ := by
  set s₁ := (calcCM t body).1.links with hs₁
  have hm : ∀ i ∈ t.links, (s₁ i).m = (body.links i).m := fun i hi ↦ by
    rw [hs₁, calcCM_links hi]
    rfl
  have hmass : ∀ i ∈ t.links, massOf (calcSubMassCM t t.root s₁ i) = massOf (s₁ i) := by
    intro i hi
    rw [calcSubMassCM_root s₁ hi]
    rfl
  have hsub : ∀ i ∈ t.links, (t.subtreeSum (fun j ↦ massOf (s₁ j)) i).1 =
      t.subtreeSum (fun j ↦ (body.links j).m) i := fun i hi ↦ by
    rw [← AddMonoidHom.coe_fst, t.map_subtreeSum]
    exact t.subtreeSum_congr fun j hj ↦ hm j ((t.below_sublist hi).subset hj)
  refine ⟨fun i hi ↦ ?_, ⟨fun i hi ↦ ?_, fun i hi ↦ ?_⟩, ?_⟩
  · show (calcSubMassCM t t.root s₁ i).wc = centerOfMass (calcSubMassCM t t.root s₁ i)
    rw [calcSubMassCM_root s₁ hi, hs₁, calcCM_links hi]
    rfl
  · have hcongr := t.subtreeSum_congr (i := i)
      fun j hj ↦ hmass j ((t.below_sublist hi).subset hj)
    show ((calcSubMassCM t t.root s₁ i).subm, (calcSubMassCM t t.root s₁ i).submwc) =
      t.subtreeSum (fun j ↦ massOf (calcSubMassCM t t.root s₁ j)) i
    rw [hcongr, calcSubMassCM_root s₁ hi]
    rfl
  · show (calcSubMassCM t t.root s₁ i).subm ≠ 0
    rw [calcSubMassCM_root s₁ hi]
    show (t.subtreeSum (fun j ↦ massOf (s₁ j)) i).1 ≠ 0
    rw [hsub i hi]
    exact hne i hi
  · show (t.links.map fun i ↦ (s₁ i).m).sum = (calcSubMassCM t t.root s₁ t.root).subm
    rw [calcSubMassCM_root s₁ t.root_mem]
    show _ = (t.subtreeSum (fun j ↦ massOf (s₁ j)) t.root).1
    rw [hsub _ t.root_mem, t.subtreeSum_root]
    exact congrArg List.sum (List.map_congr_left hm)

end Prepared

/-! ### The columns of the Jacobians -/

section Columns

variable [DecidableEq ι] [Field K] [CMath K] [DecidableEq K] {t : LinkTree ι}

/-- The velocities of the links are those of the joint rates, and their attitudes those of the
joint values. -/
structure MovesRigidly (t : LinkTree ι) (s : Store ι K) : Prop where
  attitude : ∀ p c, t.parent c = some p → (s c).R = (s p).R * jointRotation (s c)
  isMotion : IsMotion t s (fun i ↦ (s i).dq) (fun i ↦ (s i).v) fun i ↦ (s i).w

variable {i : ι}

omit [DecidableEq K] in
/-- The axis of a joint, from the data of its own link. -/
theorem MovesRigidly.treeAxis_eq {s : Store ι K} (h : MovesRigidly t s) (hi : i ∈ t.child.links) :
    treeAxis t s i = match (s i).jointType with
      | .rotationalJoint => ((s i).p ⨯₃ ((s i).R *ᵥ (s i).a), (s i).R *ᵥ (s i).a)
      | .slideJoint => ((s i).R *ᵥ (s i).d, 0)
      | .fixedJoint | .freeJoint => 0 := by
  obtain ⟨p, hp⟩ := t.exists_parent (List.mem_cons_of_mem _ hi)
    fun e ↦ t.root_notMem_child (e ▸ hi)
  have hR := h.attitude p i hp
  rw [treeAxis, hp, Option.elim_some, motionAxis, jointTwist, hR, jointRotation]
  cases (s i).jointType with
  | rotationalJoint => simp [← mulVec_mulVec]
  | slideJoint => simp
  | fixedJoint => simp
  | freeJoint => simp

variable {body : BodyState ι K}

section

omit [CMath K]

theorem Prepared.columns_rotational (h : Prepared t body) (hi : i ∈ t.links)
    (htype : (body.links i).jointType = .rotationalJoint) (unwritten unwritten' : Vector3 K) :
    let link := body.links i
    let Mcol := body.totalMass • cmJacobianColumn body.totalMass unwritten link
    subtreeInertia t body.links i (link.p ⨯₃ (link.R *ᵥ link.a), link.R *ᵥ link.a) =
      (Mcol, angularMomentumJacobianColumn Mcol unwritten'
        (calcSubMassInertia t body.links i) link) := by
  intro link Mcol
  have hmass : body.totalMass ≠ 0 := h.totalMass ▸ h.subMass.ne_zero t.root t.root_mem
  have hsubm : link.subm ≠ 0 := h.subMass.ne_zero i hi
  have hMcol : Mcol = link.subm • link.p ⨯₃ (link.R *ᵥ link.a) +
      (link.R *ᵥ link.a) ⨯₃ link.submwc := by
    show body.totalMass • cmJacobianColumn body.totalMass unwritten link = _
    rw [cmJacobianColumn, htype]
    show body.totalMass • (link.R *ᵥ link.a) ⨯₃
      (body.totalMass⁻¹ • (link.submwc - link.subm • link.p)) = _
    rw [LinearMap.map_smul, smul_smul, mul_inv_cancel₀ hmass, one_smul, LinearMap.map_sub,
      LinearMap.map_smul, ← cross_anticomm (link.R *ᵥ link.a) link.p]
    module
  rw [h.subMass.subtreeInertia_apply h.wc hi, ← hMcol, angularMomentumJacobianColumn, htype]
  refine Prod.ext rfl ?_
  show _ = if link.subm ≠ 0 then _ else _
  rw [if_pos hsubm]
  rfl

theorem Prepared.columns_slide (h : Prepared t body) (hi : i ∈ t.links)
    (htype : (body.links i).jointType = .slideJoint) (unwritten unwritten' : Vector3 K) :
    let link := body.links i
    let Mcol := body.totalMass • cmJacobianColumn body.totalMass unwritten link
    subtreeInertia t body.links i (link.R *ᵥ link.d, 0) =
      (Mcol, angularMomentumJacobianColumn Mcol unwritten'
        (calcSubMassInertia t body.links i) link) := by
  intro link Mcol
  have hmass : body.totalMass ≠ 0 := h.totalMass ▸ h.subMass.ne_zero t.root t.root_mem
  have hsubm : link.subm ≠ 0 := h.subMass.ne_zero i hi
  have hMcol : Mcol = link.subm • (link.R *ᵥ link.d) + 0 ⨯₃ link.submwc := by
    show body.totalMass • cmJacobianColumn body.totalMass unwritten link = _
    rw [cmJacobianColumn, htype, LinearMap.map_zero₂, add_zero]
    show body.totalMass • (link.subm / body.totalMass) • (link.R *ᵥ link.d) = _
    rw [smul_smul, mul_div_cancel₀ _ hmass]
  rw [h.subMass.subtreeInertia_apply h.wc hi, ← hMcol, angularMomentumJacobianColumn, htype]
  refine Prod.ext rfl ?_
  show calcSubMassInertia t body.links i *ᵥ 0 + _ = if link.subm ≠ 0 then _ else _
  rw [if_pos hsubm, mulVec_zero, zero_add]
  rfl

end

/-- The columns of a joint: the momentum of the subtree it carries, for a unit joint rate. -/
theorem Prepared.columns (h : Prepared t body) (hmove : MovesRigidly t body.links)
    (hi : i ∈ t.child.links) (hmoving : IsMoving (body.links i))
    (unwritten unwritten' : Vector3 K) :
    let Mcol := body.totalMass • cmJacobianColumn body.totalMass unwritten (body.links i)
    subtreeInertia t body.links i (treeAxis t body.links i) =
      (Mcol, angularMomentumJacobianColumn Mcol unwritten'
        (calcSubMassInertia t body.links i) (body.links i)) := by
  have hmem : i ∈ t.links := List.mem_cons_of_mem _ hi
  rw [hmove.treeAxis_eq hi]
  rcases hmoving with htype | htype
  · rw [htype]
    exact h.columns_rotational hmem htype unwritten unwritten'
  · rw [htype]
    exact h.columns_slide hmem htype unwritten unwritten'

end Columns

/-- What phase 1 makes of a link moves with its parent and its joint. -/
theorem calcABMPhase1Joint_motion [Field K] [CMath K] (g : Vector3 K) (P L : Link K) :
    let C := ForwardDynamicsABM.commonCalcs g (ForwardDynamicsABM.calcABMPhase1Joint P L)
    C.R = P.R * jointRotation C ∧ C.w = P.w + (jointTwist P.R C C.dq).2 ∧
      C.v = P.vo + P.w ⨯₃ C.p + (jointTwist P.R C C.dq).1 := by
  intro C
  have hC : C = ForwardDynamicsABM.commonCalcs g (ForwardDynamicsABM.calcABMPhase1Joint P L) := rfl
  have htype : C.jointType = L.jointType := by
    rw [hC, ForwardDynamicsABM.calcABMPhase1Joint]
    cases L.jointType <;> rfl
  cases hty : L.jointType with
  | rotationalJoint =>
    rw [jointRotation, jointTwist, htype, hty, hC, ForwardDynamicsABM.calcABMPhase1Joint, hty]
    refine ⟨rfl, add_comm _ _, ?_⟩
    show L.dq • (P.R *ᵥ L.b + P.p) ⨯₃ (P.R *ᵥ L.a) + P.vo +
        (L.dq • (P.R *ᵥ L.a) + P.w) ⨯₃ (P.R *ᵥ L.b + P.p) =
      P.vo + P.w ⨯₃ (P.R *ᵥ L.b + P.p) + 0
    generalize P.R *ᵥ L.b + P.p = p
    generalize P.R *ᵥ L.a = sw
    rw [LinearMap.map_add₂, LinearMap.map_smul₂, ← cross_anticomm p sw]
    module
  | slideJoint =>
    rw [jointRotation, jointTwist, htype, hty, hC, ForwardDynamicsABM.calcABMPhase1Joint, hty]
    refine ⟨(mul_one _).symm, (add_zero _).symm, ?_⟩
    show L.dq • (P.R *ᵥ L.d) + P.vo + P.w ⨯₃ (P.R *ᵥ (L.b + L.q • L.d) + P.p) =
      P.vo + P.w ⨯₃ (P.R *ᵥ (L.b + L.q • L.d) + P.p) + L.dq • (P.R *ᵥ L.d)
    rw [add_comm (L.dq • _), add_right_comm]
  | fixedJoint =>
    rw [jointRotation, jointTwist, htype, hty, hC, ForwardDynamicsABM.calcABMPhase1Joint, hty]
    exact ⟨(mul_one _).symm, (add_zero _).symm, (add_zero _).symm⟩
  | freeJoint =>
    rw [jointRotation, jointTwist, htype, hty, hC, ForwardDynamicsABM.calcABMPhase1Joint, hty]
    exact ⟨(mul_one _).symm, (add_zero _).symm, (add_zero _).symm⟩

/-- Phase 1 of the forward dynamics sets such velocities and attitudes. -/
theorem movesRigidly_calcABMPhase1 [DecidableEq ι] [Field K] [CMath K] (t : LinkTree ι)
    (g : Vector3 K) (s : Store ι K) : MovesRigidly t (ForwardDynamicsABM.calcABMPhase1 t g s) := by
  set s₁ := ForwardDynamicsABM.calcABMPhase1 t g s with hs₁
  have heq : ∀ i ∈ t.links,
      s₁ i = ForwardDynamicsABM.calcABMPhase1Link g ((t.parent i).map s₁) (s i) :=
    fun i hi ↦ t.forwardLoop_eq _ s hi
  have hv : ∀ i ∈ t.links, (s₁ i).v = (s₁ i).vo + (s₁ i).w ⨯₃ (s₁ i).p := fun i hi ↦ by
    rw [heq i hi]
    rfl
  have hchild : ∀ p c, t.parent c = some p → s₁ c = ForwardDynamicsABM.commonCalcs g
      (ForwardDynamicsABM.calcABMPhase1Joint (s₁ p) (s c)) := fun p c hpc ↦ by
    rw [heq c (t.parent_mem hpc).2, hpc]
    rfl
  refine ⟨fun p c hpc ↦ ?_, ⟨fun p c hpc ↦ ?_, fun p c hpc ↦ ?_⟩⟩
  · rw [hchild p c hpc]
    exact (calcABMPhase1Joint_motion g (s₁ p) (s c)).1
  · have hmotion := (calcABMPhase1Joint_motion g (s₁ p) (s c)).2.2
    rw [← hchild p c hpc] at hmotion
    rw [hmotion, hv p (t.parent_mem hpc).1, LinearMap.map_sub]
    abel
  · rw [hchild p c hpc]
    exact (calcABMPhase1Joint_motion g (s₁ p) (s c)).2.1

/-! ### The two computations agree -/

section Agreement

variable [DecidableEq ι] [Field K]

/-- A matrix with a column for every joint and two blocks for the root, applied to velocities. -/
theorem jacobian_mulVec {n : ℕ} (A : Fin n → Vector3 K) (B C : Matrix33 K) (x : Fin n → K)
    (v w : Vector3 K) :
    (Matrix.of fun r ↦ Sum.elim (fun k ↦ A k r) (Sum.elim (B r) (C r))) *ᵥ
        Sum.elim x (Sum.elim v w) =
      ∑ k, x k • A k + (B *ᵥ v + C *ᵥ w) := by
  ext r
  simp [mulVec, dotProduct, Fintype.sum_sum_type, Finset.sum_apply, mul_comm]

/-- The block of `calcCMJacobian` for the angular velocity of the root. -/
theorem rootBlock_mulVec (dp w : Vector3 K) :
    !![0, dp 2, -dp 1; -dp 2, 0, dp 0; dp 1, -dp 0, 0] *ᵥ w = w ⨯₃ dp := by
  have hhat : !![0, dp 2, -dp 1; -dp 2, 0, dp 0; dp 1, -dp 0, 0] = (hat dp)ᵀ := by
    ext i j
    fin_cases i <;> fin_cases j <;> rfl
  rw [hhat, hat_transpose_mulVec]

variable [CMath K] {t : LinkTree ι} {body : BodyState ι K}

omit [DecidableEq ι] [CMath K] in
theorem calcTotalMomentum_eq_sum (s : Store ι K)
    (hwc : ∀ i ∈ t.links, (s i).wc = centerOfMass (s i)) :
    calcTotalMomentum t s = (t.links.map fun i ↦
      (linkInertia (s i)).toLin (spatialVelocity (s i).p (s i).v (s i).w)).sum := by
  rw [calcTotalMomentum, ← List.foldl_map, ← List.sum_eq_foldl]
  refine congrArg List.sum (List.map_congr_left fun i hi ↦ ?_)
  rw [linkInertia_toLin, spatialVelocity_centerOfMass, ← hwc i hi]
  refine Prod.ext rfl ?_
  show (s i).wc ⨯₃ _ + (s i).R *ᵥ (((s i).I * (s i).Rᵀ) *ᵥ (s i).w) = _
  rw [mulVec_mulVec, ← Matrix.mul_assoc, add_comm]
  rfl

variable [DecidableEq K] {n : ℕ} {joint : Fin n → Option ι}

/-- The joints of the body, as the Jacobians use them. -/
structure ListsJoints (t : LinkTree ι) (s : Store ι K) (joint : Fin n → Option ι) : Prop where
  of_joint : ∀ k i, joint k = some i → i ∈ t.child.links ∧ IsMoving (s i)
  sum_joint : ∀ f : ι → Spatial K, ∑ k, (joint k).elim 0 f =
    (t.child.links.map fun i ↦ if IsMoving (s i) then f i else 0).sum

omit [DecidableEq K] in
/-- The total momentum: that of the root velocity, and that of the joint rates. -/
theorem Prepared.calcTotalMomentum_eq (h : Prepared t body) (hmove : MovesRigidly t body.links)
    (hjoint : ListsJoints t body.links joint) :
    calcTotalMomentum t body.links =
      subtreeInertia t body.links t.root (spatialVelocity (body.links t.root).p
          (body.links t.root).v (body.links t.root).w) +
        ∑ k, (joint k).elim 0 fun i ↦
          (body.links i).dq • subtreeInertia t body.links i (treeAxis t body.links i) := by
  rw [calcTotalMomentum_eq_sum body.links h.wc, hmove.isMotion.sum_linkInertia, hjoint.sum_joint]
  congr 2
  refine List.map_congr_left fun i hi ↦ ?_
  rw [LinearMap.map_smul]
  split_ifs with hmoving
  · rfl
  · rw [hmove.treeAxis_eq hi]
    rw [IsMoving, not_or] at hmoving
    cases htype : (body.links i).jointType with
    | rotationalJoint => exact absurd htype hmoving.1
    | slideJoint => exact absurd htype hmoving.2
    | fixedJoint => rw [map_zero, smul_zero]
    | freeJoint => rw [map_zero, smul_zero]

omit [CMath K] [DecidableEq K] in
/-- `calcCMJacobian` leaves a body that is ready as it is. -/
theorem Prepared.calcCMJacobian_fst (h : Prepared t body) (unwritten : Fin n → Vector3 K) :
    (calcCMJacobian t joint unwritten body).1 = body := by
  show (⟨calcSubMassCM t t.root body.links, body.totalMass⟩ : BodyState ι K) = body
  rw [h.subMass.calcSubMassCM_eq]

/-- The linear momentum from the Jacobian. -/
theorem Prepared.calcCMJacobian_mulVec (h : Prepared t body) (hmove : MovesRigidly t body.links)
    (hjoint : ListsJoints t body.links joint) (unwritten : Fin n → Vector3 K) (v w : Vector3 K) :
    body.totalMass • (calcCMJacobian t joint unwritten body).2 *ᵥ
        Sum.elim (fun k ↦ (joint k).elim 0 fun j ↦ (body.links j).dq) (Sum.elim v w) =
      (subtreeInertia t body.links t.root
          (spatialVelocity (body.links t.root).p v w) +
        ∑ k, (joint k).elim 0 fun i ↦
          (body.links i).dq • subtreeInertia t body.links i (treeAxis t body.links i)).1 := by
  have hmass : body.totalMass ≠ 0 := h.totalMass ▸ h.subMass.ne_zero t.root t.root_mem
  have hcolumn : ∀ k, body.totalMass • ((joint k).elim 0 fun j ↦ (body.links j).dq) •
        (joint k).elim (unwritten k)
          (fun j ↦ cmJacobianColumn body.totalMass (unwritten k) (body.links j)) =
      ((joint k).elim 0 fun i ↦ (body.links i).dq •
        subtreeInertia t body.links i (treeAxis t body.links i)).1 := by
    intro k
    cases hk : joint k with
    | none => simp
    | some i =>
      obtain ⟨hi, hmoving⟩ := hjoint.of_joint k i hk
      simp only [Option.elim_some]
      rw [h.columns hmove hi hmoving (unwritten k) 0, smul_comm]
      rfl
  have hroot : body.totalMass • ((1 : Matrix33 K) *ᵥ v +
        w ⨯₃ (body.totalMass⁻¹ • (body.links t.root).submwc - (body.links t.root).p)) =
      (subtreeInertia t body.links t.root (spatialVelocity (body.links t.root).p v w)).1 := by
    rw [h.subMass.subtreeInertia_apply h.wc t.root_mem, ← h.totalMass, one_mulVec,
      LinearMap.map_sub, LinearMap.map_smul]
    show _ = body.totalMass • (v - w ⨯₃ (body.links t.root).p) +
      w ⨯₃ (body.links t.root).submwc
    rw [smul_add, smul_sub, smul_smul, mul_inv_cancel₀ hmass]
    module
  rw [calcCMJacobian]
  simp only [h.subMass.calcSubMassCM_eq]
  rw [jacobian_mulVec, rootBlock_mulVec, smul_add, hroot, Finset.smul_sum,
    Finset.sum_congr rfl fun k _ ↦ hcolumn k, add_comm, Prod.fst_add, Prod.fst_sum]

/-- The Jacobians of a body that is ready give the linear momentum, and the angular one about the
centre of mass. -/
theorem Prepared.calcTotalMomentumFromJacobian_eq (h : Prepared t body)
    (hmove : MovesRigidly t body.links) (hjoint : ListsJoints t body.links joint)
    (unwrittenJ unwrittenM unwrittenH : Fin n → Vector3 K) :
    let PL := calcTotalMomentum t body.links
    calcTotalMomentumFromJacobian t joint unwrittenJ unwrittenM unwrittenH body =
      (PL.1, PL.2 - subCM (body.links t.root) ⨯₃ PL.1) := by
  intro PL
  set C := subCM (body.links t.root) with hC
  set root := body.links t.root with hroot
  set X : Fin n → Spatial K := fun k ↦ (joint k).elim 0 fun i ↦
    (body.links i).dq • subtreeInertia t body.links i (treeAxis t body.links i) with hX
  have hPL : PL = subtreeInertia t body.links t.root (spatialVelocity root.p root.v root.w) +
      ∑ k, X k := h.calcTotalMomentum_eq hmove hjoint
  have hMcol : ∀ k, (fun i ↦ body.totalMass *
      (calcCMJacobian t joint unwrittenM body).2 i (.inl k)) = body.totalMass •
        (joint k).elim (unwrittenM k)
          fun j ↦ cmJacobianColumn body.totalMass (unwrittenM k) (body.links j) := by
    intro k
    rw [calcCMJacobian]
    simp only [h.subMass.calcSubMassCM_eq]
    rfl
  have hcolumn : ∀ k, ((joint k).elim 0 fun j ↦ (body.links j).dq) •
        ((joint k).elim (unwrittenH k) (fun j ↦ angularMomentumJacobianColumn
            (body.totalMass • (joint k).elim (unwrittenM k)
              fun j ↦ cmJacobianColumn body.totalMass (unwrittenM k) (body.links j))
            (unwrittenH k) (calcSubMassInertia t body.links j) (body.links j)) -
          hat C *ᵥ (body.totalMass • (joint k).elim (unwrittenM k)
            fun j ↦ cmJacobianColumn body.totalMass (unwrittenM k) (body.links j))) =
      (X k).2 - C ⨯₃ (X k).1 := by
    intro k
    simp only [hX]
    cases hk : joint k with
    | none => simp
    | some i =>
      obtain ⟨hi, hmoving⟩ := hjoint.of_joint k i hk
      simp only [Option.elim_some]
      rw [h.columns hmove hi hmoving (unwrittenM k) (unwrittenH k), hat_mulVec, smul_sub]
      simp only [Prod.smul_fst, Prod.smul_snd, LinearMap.map_smul]
  have hangular : (calcAngularMomentumJacobian t joint unwrittenM unwrittenH body).2 *ᵥ
        Sum.elim (fun k ↦ (joint k).elim 0 fun j ↦ (body.links j).dq)
          (Sum.elim root.v root.w) = PL.2 - C ⨯₃ PL.1 := by
    have hrootL : calcSubMassInertia t body.links t.root *ᵥ root.w =
        (subtreeInertia t body.links t.root (spatialVelocity root.p root.v root.w)).2 -
          C ⨯₃ (subtreeInertia t body.links t.root
            (spatialVelocity root.p root.v root.w)).1 := by
      rw [h.subMass.subtreeInertia_apply h.wc t.root_mem]
      exact (add_sub_cancel_right _ _).symm
    rw [calcAngularMomentumJacobian]
    simp only [hMcol, h.calcCMJacobian_fst, h.subMass.calcSubMassCM_eq, h.calcCM_eq]
    rw [jacobian_mulVec, ← hC, Finset.sum_congr rfl fun k _ ↦ hcolumn k, zero_mulVec, zero_add,
      hrootL, hPL, Finset.sum_sub_distrib, Prod.snd_add, Prod.fst_add, Prod.snd_sum,
      Prod.fst_sum, LinearMap.map_add (crossProduct C), map_sum (crossProduct C)]
    abel
  have hlinear := h.calcCMJacobian_mulVec hmove hjoint unwrittenJ root.v root.w
  have hstate : (calcAngularMomentumJacobian t joint unwrittenM unwrittenH body).1 = body := by
    rw [calcAngularMomentumJacobian]
    simp only [h.calcCMJacobian_fst, h.subMass.calcSubMassCM_eq, h.calcCM_eq]
  rw [calcTotalMomentumFromJacobian]
  simp only [h.calcCMJacobian_fst, hstate]
  exact Prod.ext (hlinear.trans (congrArg Prod.fst hPL).symm) hangular

end Agreement

section Final

variable [DecidableEq ι] [Field K] [LinearOrder K] [IsStrictOrderedRing K] [CMath K]
  {t : LinkTree ι}

/-- **The two momenta agree** after `calcCM`: the linear ones are equal, and the angular one from
the Jacobian is taken about the centre of mass. -/
theorem calcTotalMomentumFromJacobian_calcCM (t : LinkTree ι) (body : BodyState ι K)
    (hmass : ∀ i ∈ t.links, 0 < (body.links i).m) (hjoints : Actuated t body.links)
    (hmove : MovesRigidly t body.links)
    (unwrittenJ unwrittenM unwrittenH : Fin (numJoints t body.links) → Vector3 K) :
    let r := calcCM t body
    let PL := calcTotalMomentum t r.1.links
    calcTotalMomentumFromJacobian t (joint t body.links) unwrittenJ unwrittenM unwrittenH r.1 =
      (PL.1, PL.2 - r.2 ⨯₃ PL.1) := by
  intro r PL
  set body' : BodyState ι K := ⟨calcSubMassCM t t.root r.1.links, r.1.totalMass⟩ with hbody'
  have hprep : Prepared t body' :=
    prepared_calcSubMassCM fun i hi ↦ (subtreeSum_mass_pos hmass hi).ne'
  have hlink : ∀ i ∈ t.links, body'.links i = setSubMass (updateWC (body.links i))
      (t.subtreeSum (fun i ↦ massOf (r.1.links i)) i) := fun i hi ↦ by
    rw [hbody', ← calcCM_links hi]
    exact calcSubMassCM_root r.1.links hi
  have hmove' : MovesRigidly t body'.links := by
    refine ⟨fun p c hpc ↦ ?_, ⟨fun p c hpc ↦ ?_, fun p c hpc ↦ ?_⟩⟩
    · rw [hlink p (t.parent_mem hpc).1, hlink c (t.parent_mem hpc).2]
      exact hmove.attitude p c hpc
    · simp only [hlink p (t.parent_mem hpc).1, hlink c (t.parent_mem hpc).2]
      exact hmove.isMotion.v p c hpc
    · simp only [hlink p (t.parent_mem hpc).1, hlink c (t.parent_mem hpc).2]
      exact hmove.isMotion.w p c hpc
  have hmoving : ∀ i ∈ t.child.links, IsMoving (body'.links i) ↔ IsMoving (body.links i) :=
    fun i hi ↦ by
      rw [hlink i (List.mem_cons_of_mem _ hi)]
      exact Iff.rfl
  have hlist : ListsJoints t body'.links (joint t body.links) := by
    refine ⟨fun k i hk ↦ ?_, fun f ↦ ?_⟩
    · obtain ⟨hi, hm⟩ := hjoints.of_joint hk
      exact ⟨hi, (hmoving i hi).2 hm⟩
    · rw [hjoints.sum_joint]
      exact congrArg List.sum (List.map_congr_left fun i hi ↦ by simp only [hmoving i hi])
  -- the first thing both Jacobians do is to bring the subtree masses up to date
  have hstart : calcTotalMomentumFromJacobian t (joint t body.links) unwrittenJ unwrittenM
      unwrittenH r.1 = calcTotalMomentumFromJacobian t (joint t body.links) unwrittenJ unwrittenM
      unwrittenH body' := by
    have hJ : calcCMJacobian t (joint t body.links) unwrittenJ r.1 =
        calcCMJacobian t (joint t body.links) unwrittenJ body' := by
      rw [calcCMJacobian, calcCMJacobian, hprep.subMass.calcSubMassCM_eq]
    rw [calcTotalMomentumFromJacobian, calcTotalMomentumFromJacobian, hJ]
  have hPL : PL = calcTotalMomentum t body'.links := by
    have hmomentum : ∀ i ∈ t.links,
        linkMomentum (r.1.links i) = linkMomentum (body'.links i) := fun i hi ↦ by
      rw [hlink i hi, calcCM_links hi]
      rfl
    show calcTotalMomentum t r.1.links = _
    rw [calcTotalMomentum, calcTotalMomentum, ← List.foldl_map, List.map_congr_left hmomentum,
      List.foldl_map]
  have hcm : r.2 = subCM (body'.links t.root) := by
    have hmwc : ∀ i ∈ t.links,
        (r.1.links i).m • (r.1.links i).wc = (body'.links i).m • (body'.links i).wc :=
      fun i hi ↦ by
        rw [hlink i hi, calcCM_links hi]
        rfl
    have hsum : (t.links.map fun i ↦ (r.1.links i).m • (r.1.links i).wc).sum =
        (body'.links t.root).submwc := by
      rw [hprep.subMass.root_eq.2, List.map_congr_left hmwc]
    show r.1.totalMass⁻¹ • (t.links.map fun i ↦ (r.1.links i).m • (r.1.links i).wc).sum = _
    rw [hsum, subCM, ← hprep.totalMass]
  rw [hstart, hPL, hcm]
  exact hprep.calcTotalMomentumFromJacobian_eq hmove' hlist unwrittenJ unwrittenM unwrittenH

end Final

/-- A free base that turns, with one rotational joint moving. -/
def spinningArm (i : Fin 2) : Link ℚ :=
  { Link.blank with
    jointId := (i : ℤ) - 1
    jointType := if i = 0 then .freeJoint else .rotationalJoint
    w := if i = 0 then ![0, 0, 1] else 0
    dq := if i = 0 then 0 else 2
    a := if i = 0 then 0 else ![0, 0, 1]
    b := if i = 0 then 0 else ![1, 0, 0]
    m := 1
    c := ![1, 0, 0] }

theorem calcTotalMomentumFromJacobian_calcCM_spinningArm :
    let body : BodyState (Fin 2) ℚ :=
      ⟨ForwardDynamicsABM.calcABMPhase1 oneJointTree 0 spinningArm, 0⟩
    let r := calcCM oneJointTree body
    let PL := calcTotalMomentum oneJointTree r.1.links
    calcTotalMomentumFromJacobian oneJointTree (joint oneJointTree body.links) 0 0 0 r.1 =
      (PL.1, PL.2 - r.2 ⨯₃ PL.1) :=
  calcTotalMomentumFromJacobian_calcCM oneJointTree _ (by decide +kernel)
    ⟨⟨by decide +kernel, by decide +kernel⟩, by decide +kernel⟩
    (movesRigidly_calcABMPhase1 oneJointTree 0 spinningArm) 0 0 0

end OpenHRP
