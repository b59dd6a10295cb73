import OpenHRP.Dynamics.NewtonEuler

/-!
# The recursive inverse dynamics pass

`calcInverseDynamics` occurs twice in the program, in `Body` and in `ForwardDynamicsMM`; both go
down the tree and set the accelerations of each link from its parent (`step`), then come back and
add up the forces the links need (`total`), storing in each link the joint torque. This file is
about what they share: what one pass leaves in the links (`PassResult`), and how two passes over the
same links with different accelerations differ (`AccelAffine.sub`).
-/

open Matrix

namespace OpenHRP

open ForwardDynamicsABM (accel axis)

variable {ι K : Type*} [DecidableEq ι] [Field K]

/-- `u = sv.dot(f) + sw.dot(tau)` -/
def drive (link : Link K) (F : Spatial K) : Link K :=
  { link with u := link.sv ⬝ᵥ F.1 + link.sw ⬝ᵥ F.2 }

section Pass

variable (step : Link K → Link K → Link K) (total : Link K → Spatial K → Spatial K)

/-- The recursion over a sibling chain whose links have the parent `parent`: the links it leaves,
and the force on all of them. -/
def inverseDynamicsChildren (parent : ι) : LinkPtr ι → Store ι K → Store ι K × Spatial K
  | .null, s => (s, 0)
  | .link l child sibling, s =>
    let s := Function.update s l (step (s parent) (s l))
    let below := inverseDynamicsChildren l child s
    let out := total (below.1 l) below.2
    let s := Function.update below.1 l (drive (below.1 l) out)
    let next := inverseDynamicsChildren parent sibling s
    (next.1, out + next.2)

/-- The recursion from the root, which has no parent to take accelerations from. -/
def inverseDynamics (t : LinkTree ι) (s : Store ι K) : Store ι K × Spatial K :=
  let below := inverseDynamicsChildren step total t.root t.child s
  let out := total (below.1 t.root) below.2
  (Function.update below.1 t.root (drive (below.1 t.root) out), out)

end Pass

/-- What a pass over `s` leaves, for links that need the force `force`. -/
structure PassResult (step : Link K → Link K → Link K) (force : Link K → Spatial K)
    (t : LinkTree ι) (s : Store ι K) (r : Store ι K × Spatial K) : Prop where
  root : r.1 t.root = drive (s t.root) r.2
  joint : ∀ p i, t.parent i = some p →
    r.1 i = drive (step (r.1 p) (s i)) (t.subtreeSum (fun k ↦ force (r.1 k)) i)
  outside : ∀ i, i ∉ t.links → r.1 i = s i
  out : r.2 = (t.links.map fun k ↦ force (r.1 k)).sum

section Pass

variable {step : Link K → Link K → Link K} {total : Link K → Spatial K → Spatial K}
  {force : Link K → Spatial K} {t : LinkTree ι}

/-- One sibling chain. Torques are read by nobody, so a link stays what its descendants saw when
its torque is set after them. -/
theorem inverseDynamicsChildren_eq (htotal : ∀ L F, total L F = force L + F)
    (hstep : ∀ P F L, step (drive P F) L = step P L) (hforce : ∀ L F, force (drive L F) = force L)
    {parent : ι} {ptr : LinkPtr ι} (hptr : t.child.Meets ptr)
    (hnd : (parent :: ptr.links).Nodup) (s : Store ι K) :
    let r := inverseDynamicsChildren step total parent ptr s
    (∀ i, i ∉ ptr.links → r.1 i = s i) ∧
      (∀ p i, ptr.Joins parent p i →
        r.1 i = drive (step (r.1 p) (s i)) (t.subtreeSum (fun k ↦ force (r.1 k)) i)) ∧
      r.2 = ptr.sum fun k ↦ force (r.1 k) := by
  induction ptr generalizing parent s with
  | null => exact ⟨fun _ _ ↦ rfl, fun _ _ h ↦ h.elim, rfl⟩
  | link l c sib ihc ihs =>
    simp only [LinkPtr.links_link, List.nodup_cons, List.mem_cons, List.mem_append, not_or,
      List.nodup_append] at hnd
    obtain ⟨⟨hl, hparentc, hparents⟩, ⟨hlc, hls⟩, hc, hs, hcs⟩ := hnd
    intro r
    set s₁ := Function.update s l (step (s parent) (s l)) with hs₁
    obtain ⟨hout₁, hjoint₁, hsum₁⟩ := ihc hptr.below.1 (List.nodup_cons.2 ⟨hlc, hc⟩) s₁
    set r₁ := inverseDynamicsChildren step total l c s₁ with hr₁
    set out := total (r₁.1 l) r₁.2 with hout
    set s₂ := Function.update r₁.1 l (drive (r₁.1 l) out) with hs₂
    obtain ⟨hout₂, hjoint₂, hsum₂⟩ := ihs hptr.below.2 (List.nodup_cons.2 ⟨hparents, hs⟩) s₂
    set r₂ := inverseDynamicsChildren step total parent sib s₂ with hr₂
    have hr : r = (r₂.1, out + r₂.2) := rfl
    -- the link itself, the links below it and the parent, at the end
    have hl₁ : r₁.1 l = step (s parent) (s l) := by
      rw [hout₁ l hlc, hs₁, Function.update_self]
    have hl₂ : r₂.1 l = drive (r₁.1 l) out := by
      rw [hout₂ l hls, hs₂, Function.update_self]
    have hc₂ : ∀ k ∈ c.links, r₂.1 k = r₁.1 k := fun k hk ↦ by
      have hkl : k ≠ l := fun e ↦ hlc (e ▸ hk)
      rw [hout₂ k fun h ↦ hcs k hk k h rfl, hs₂, Function.update_of_ne hkl]
    have hparent₂ : r₂.1 parent = s parent := by
      rw [hout₂ parent hparents, hs₂, Function.update_of_ne hl, hout₁ parent hparentc, hs₁,
        Function.update_of_ne hl]
    have hforce₂ : ∀ k ∈ l :: c.links, force (r₂.1 k) = force (r₁.1 k) := fun k hk ↦ by
      rcases List.mem_cons.1 hk with rfl | hk
      · rw [hl₂, hforce]
      · rw [hc₂ k hk]
    have hcsum : c.sum (fun k ↦ force (r₂.1 k)) = r₁.2 := by
      rw [hsum₁, LinkPtr.sum_eq_sum_links, LinkPtr.sum_eq_sum_links]
      exact congrArg List.sum
        (List.map_congr_left fun k hk ↦ hforce₂ k (List.mem_cons_of_mem l hk))
    have hlsum : t.subtreeSum (fun k ↦ force (r₂.1 k)) l = out := by
      rw [LinkTree.subtreeSum, t.childPtr_of_meets hptr, hcsum,
        hforce₂ l List.mem_cons_self, hout, htotal]
    rw [hr]
    refine ⟨fun i hi ↦ ?_, fun p i hpi ↦ ?_, ?_⟩
    · simp only [LinkPtr.links_link, List.mem_cons, List.mem_append, not_or] at hi
      rw [hout₂ i hi.2.2, hs₂, Function.update_of_ne hi.1, hout₁ i hi.2.1, hs₁,
        Function.update_of_ne hi.1]
    · rcases hpi with ⟨rfl, rfl⟩ | hpi | hpi
      · show r₂.1 i = drive (step (r₂.1 p) (s i)) (t.subtreeSum (fun k ↦ force (r₂.1 k)) i)
        rw [hlsum, hparent₂, ← hl₁, hl₂]
      · have hic := hpi.mem.2
        have hil : i ≠ l := fun e ↦ hlc (e ▸ hic)
        have hp : step (r₂.1 p) = step (r₁.1 p) := by
          rcases List.mem_cons.1 hpi.mem.1 with rfl | hp
          · rw [hl₂]
            exact funext (hstep _ _)
          · rw [hc₂ p hp]
        have hsub : t.subtreeSum (fun k ↦ force (r₂.1 k)) i =
            t.subtreeSum (fun k ↦ force (r₁.1 k)) i :=
          t.subtreeSum_congr fun k hk ↦ hforce₂ k
            (List.mem_cons_of_mem l (t.below_subset_of_meets hptr.below.1 hic hk))
        show r₂.1 i = drive (step (r₂.1 p) (s i)) (t.subtreeSum (fun k ↦ force (r₂.1 k)) i)
        rw [hc₂ i hic, hp, hsub, hjoint₁ p i hpi, hs₁, Function.update_of_ne hil]
      · have his := hpi.mem.2
        have hil : i ≠ l := fun e ↦ hls (e ▸ his)
        have hsi : s₂ i = s i := by
          rw [hs₂, Function.update_of_ne hil, hout₁ i fun h ↦ hcs i h i his rfl, hs₁,
            Function.update_of_ne hil]
        rw [← hsi]
        exact hjoint₂ p i hpi
    · show out + r₂.2 = force (r₂.1 l) + c.sum (fun k ↦ force (r₂.1 k)) + _
      rw [hcsum, hforce₂ l List.mem_cons_self, ← htotal, hsum₂]

/-- What the pass from the root leaves. -/
theorem passResult_inverseDynamics (htotal : ∀ L F, total L F = force L + F)
    (hstep : ∀ P F L, step (drive P F) L = step P L) (hforce : ∀ L F, force (drive L F) = force L)
    (t : LinkTree ι) (s : Store ι K) :
    PassResult step force t s (inverseDynamics step total t s) := by
  obtain ⟨hout, hjoint, hsum⟩ := inverseDynamicsChildren_eq htotal hstep hforce
    (LinkPtr.meets_self t.child) t.nodup s
  set below := inverseDynamicsChildren step total t.root t.child s with hbelow
  have hr : inverseDynamics step total t s = (Function.update below.1 t.root
      (drive (below.1 t.root) (total (below.1 t.root) below.2)),
      total (below.1 t.root) below.2) := rfl
  have hroot : below.1 t.root = s t.root := hout t.root t.root_notMem_child
  rw [hroot, htotal] at hr
  set out := force (s t.root) + below.2 with hdef
  set s' := Function.update below.1 t.root (drive (s t.root) out) with hs'
  have hs'root : s' t.root = drive (s t.root) out := Function.update_self _ _ _
  have hs'child : ∀ k ∈ t.child.links, s' k = below.1 k := fun k hk ↦
    Function.update_of_ne (fun e : k = t.root ↦ t.root_notMem_child (e ▸ hk)) _ _
  have hforce' : ∀ k ∈ t.child.links, force (s' k) = force (below.1 k) := fun k hk ↦ by
    rw [hs'child k hk]
  rw [hr]
  refine ⟨hs'root, fun p i hpi ↦ ?_, fun i hi ↦ ?_, ?_⟩
  · have hi : i ∈ t.child.links := t.mem_child_of_parent hpi
    have hp : step (s' p) = step (below.1 p) := by
      rcases List.mem_cons.1 (t.parent_mem hpi).1 with rfl | hp
      · rw [hs'root, hroot]
        exact funext (hstep _ _)
      · rw [hs'child p hp]
    have hsub : t.subtreeSum (fun k ↦ force (s' k)) i =
        t.subtreeSum (fun k ↦ force (below.1 k)) i :=
      t.subtreeSum_congr fun k hk ↦ hforce' k
        (t.below_subset_of_meets (LinkPtr.meets_self t.child) hi hk)
    show s' i = drive (step (s' p) (s i)) (t.subtreeSum (fun k ↦ force (s' k)) i)
    rw [hs'child i hi, hp, hsub]
    exact hjoint p i (t.parent_eq_some_iff.1 hpi)
  · rw [LinkTree.links, List.mem_cons, not_or] at hi
    show s' i = s i
    rw [hs', Function.update_of_ne hi.1, hout i hi.2]
  · show out = ((t.root :: t.child.links).map fun k ↦ force (s' k)).sum
    rw [List.map_cons, List.sum_cons, hs'root, hforce, hdef, hsum, LinkPtr.sum_eq_sum_links,
      List.map_congr_left hforce']

end Pass

/-! ### How a pass depends on the accelerations -/

/-- What accelerations and torques do not touch. -/
def atRest (link : Link K) : Link K :=
  { link with dvo := 0, dw := 0, ddq := 0, u := 0 }

/-- Links that agree at rest differ in their accelerations and torques alone. -/
theorem eq_of_atRest_eq {L L' : Link K} (h : atRest L = atRest L') :
    L' = { L with dvo := L'.dvo, dw := L'.dw, ddq := L'.ddq, u := L'.u } :=
  (congrArg (fun M : Link K ↦ { M with dvo := L'.dvo, dw := L'.dw, ddq := L'.ddq, u := L'.u })
    h.symm :)

/-- `link->ddq = x;` -/
def setDdq (x : K) (link : Link K) : Link K :=
  { link with ddq := x }

/-- The acceleration of a link is that of its parent plus `ddq` times its axis, plus terms that do
not depend on accelerations, and the force it needs grows with its acceleration as `inertia`. What
`step` overwrites in a link is dropped by `clear`. -/
structure AccelAffine (step : Link K → Link K → Link K) (force : Link K → Spatial K)
    (clear : Link K → Link K) (inertia : Link K → Spatial K →ₗ[K] Spatial K) : Prop where
  step_drive : ∀ P F L, step (drive P F) L = step P L
  force_drive : ∀ L F, force (drive L F) = force L
  clear_drive : ∀ L F, clear (drive L F) = clear L
  clear_step : ∀ P L, clear (step P L) = clear L
  clear_ddq : ∀ L, (clear L).ddq = L.ddq
  clear_setDdq : ∀ x L, clear (setDdq x L) = setDdq x (clear L)
  step_rest : ∀ P P' L L', atRest P = atRest P' → atRest (clear L) = atRest (clear L') →
    atRest (step P L) = atRest (step P' L')
  step_accel : ∀ P P' L L', atRest P = atRest P' → atRest (clear L) = atRest (clear L') →
    accel (step P L) - accel (step P' L') =
      accel P - accel P' + (L.ddq - L'.ddq) • axis (step P L)
  inertia_congr : ∀ L L', atRest L = atRest L' → inertia L = inertia L'
  force_sub : ∀ L L', atRest L = atRest L' →
    force L - force L' = inertia L (accel L - accel L')

theorem axis_congr {L L' : Link K} (h : atRest L = atRest L') : axis L = axis L' :=
  (congrArg (fun L : Link K ↦ (L.sv, L.sw)) h :)

theorem drive_u_sub {L L' : Link K} (h : atRest L = atRest L') (F F' : Spatial K) :
    (drive L F).u - (drive L' F').u = spatialDot (axis L) (F - F') := by
  rw [map_sub]
  nth_rewrite 2 [axis_congr h]
  rfl

section AccelAffine

variable {step : Link K → Link K → Link K} {force : Link K → Spatial K}
  {clear : Link K → Link K} {inertia : Link K → Spatial K →ₗ[K] Spatial K} {t : LinkTree ι}

/-- What two passes over the same links have in common. -/
structure SameLinks (clear : Link K → Link K) (t : LinkTree ι) (s s' : Store ι K) : Prop where
  root : atRest (s t.root) = atRest (s' t.root)
  joint : ∀ i ∈ t.child.links, atRest (clear (s i)) = atRest (clear (s' i))

/-- A pass leaves what it reads in the links below the root as it was. -/
theorem AccelAffine.clear_eq (h : AccelAffine step force clear inertia)
    (hr : PassResult step force t s r) : ∀ i ∈ t.child.links, clear (r.1 i) = clear (s i) := by
  intro i hi
  obtain ⟨p, hp⟩ := t.exists_parent_of_mem_child hi
  rw [hr.joint p i hp, h.clear_drive, h.clear_step]

variable {s s' : Store ι K} {r r' : Store ι K × Spatial K}

theorem AccelAffine.rest_eq (h : AccelAffine step force clear inertia)
    (hsame : SameLinks clear t s s') (hr : PassResult step force t s r)
    (hr' : PassResult step force t s' r') : ∀ i ∈ t.links, atRest (r.1 i) = atRest (r'.1 i) := by
  refine t.parent_induction ?_ fun p c hpc ih ↦ ?_
  · rw [hr.root, hr'.root]
    exact hsame.root
  · rw [hr.joint p c hpc, hr'.joint p c hpc]
    exact h.step_rest _ _ _ _ ih (hsame.joint c (t.mem_child_of_parent hpc))

/-- **Two passes over the same links.** If `D` is the difference of the root accelerations and
grows along the joints by the differences of `ddq`, then the links differ in their accelerations
by `D`, and so the forces by the inertias applied to `D`. -/
theorem AccelAffine.sub (h : AccelAffine step force clear inertia) (hsame : SameLinks clear t s s')
    (hr : PassResult step force t s r) (hr' : PassResult step force t s' r') {D : ι → Spatial K}
    (hroot : D t.root = accel (s t.root) - accel (s' t.root))
    (hD : ∀ p c, t.parent c = some p → D c = D p + ((s c).ddq - (s' c).ddq) • axis (r'.1 c)) :
    (∀ i ∈ t.links, accel (r.1 i) - accel (r'.1 i) = D i) ∧
      r.2 - r'.2 = (t.links.map fun k ↦ inertia (r'.1 k) (D k)).sum ∧
      ∀ i ∈ t.child.links, (r.1 i).u - (r'.1 i).u =
        spatialDot (axis (r'.1 i)) (t.subtreeSum (fun k ↦ inertia (r'.1 k) (D k)) i) := by
  have hrest := h.rest_eq hsame hr hr'
  have haccel : ∀ i ∈ t.links, accel (r.1 i) - accel (r'.1 i) = D i := by
    refine t.parent_induction ?_ fun p c hpc ih ↦ ?_
    · rw [hr.root, hr'.root, hroot]
      rfl
    · have hstep := h.step_accel (r.1 p) (r'.1 p) (s c) (s' c) (hrest p (t.parent_mem hpc).1)
        (hsame.joint c (t.mem_child_of_parent hpc))
      have haxis : axis (step (r.1 p) (s c)) = axis (r.1 c) := by
        rw [hr.joint p c hpc]
        rfl
      rw [ih, haxis, axis_congr (hrest c (t.parent_mem hpc).2)] at hstep
      rw [hD p c hpc, ← hstep, hr.joint p c hpc, hr'.joint p c hpc]
      rfl
  have hforce : ∀ k ∈ t.links, force (r.1 k) = inertia (r'.1 k) (D k) + force (r'.1 k) :=
    fun k hk ↦ by
      rw [← sub_eq_iff_eq_add, h.force_sub _ _ (hrest k hk), haccel k hk,
        h.inertia_congr _ _ (hrest k hk)]
  refine ⟨haccel, ?_, fun i hi ↦ ?_⟩
  · rw [hr.out, hr'.out, List.map_congr_left hforce, List.sum_map_add, add_sub_cancel_right]
  · have hmem : i ∈ t.links := List.mem_cons_of_mem _ hi
    obtain ⟨p, hp⟩ := t.exists_parent_of_mem_child hi
    have hsum : t.subtreeSum (fun k ↦ force (r.1 k)) i =
        t.subtreeSum (fun k ↦ inertia (r'.1 k) (D k)) i +
          t.subtreeSum (fun k ↦ force (r'.1 k)) i := by
      rw [← t.subtreeSum_add]
      exact t.subtreeSum_congr fun k hk ↦ hforce k ((t.below_sublist hmem).subset hk)
    have hlinks : atRest (step (r.1 p) (s i)) = atRest (step (r'.1 p) (s' i)) :=
      h.step_rest _ _ _ _ (hrest p (t.parent_mem hp).1) (hsame.joint i hi)
    have haxis : axis (step (r'.1 p) (s' i)) = axis (r'.1 i) := by
      rw [hr'.joint p i hp]
      rfl
    have hu : (r.1 i).u = (drive (step (r.1 p) (s i)) _).u := congrArg Link.u (hr.joint p i hp)
    have hu' : (r'.1 i).u = (drive (step (r'.1 p) (s' i)) _).u :=
      congrArg Link.u (hr'.joint p i hp)
    rw [hu, hu', drive_u_sub hlinks, hsum, add_sub_cancel_right, axis_congr hlinks, haxis]

/-! ### The unit-vector method -/

/-- The accelerations of a body: of the root along and about the coordinate axes, and of the
joints. -/
abbrev Dof (ι : Type*) := Fin 3 ⊕ Fin 3 ⊕ ι

/-- The unit accelerations of the root, for a root at `p`: an angular one leaves the linear
acceleration of the root itself at zero. -/
def unitRoot (p : Vector3 K) : Dof ι → Spatial K
  | .inl i => (Pi.single i (1 : K), 0)
  | .inr (.inl i) => (-cross (Pi.single i 1 : Vector3 K) p, Pi.single i 1)
  | .inr (.inr _) => 0

omit [DecidableEq ι] in
/-- A sum of unit accelerations of the root is the spatial acceleration with these components. -/
theorem sum_smul_unitRoot (p v w : Vector3 K) :
    (∑ k, v k • unitRoot p (.inl k : Dof ι)) + ∑ k, w k • unitRoot p (.inr (.inl k) : Dof ι) =
      (v - w ⨯₃ p, w) := by
  have hbasis : ∀ v : Vector3 K, ∑ k, v k • (Pi.single k 1 : Vector3 K) = v := fun v ↦ by
    ext i
    simp [Finset.sum_apply, Pi.single_apply]
  have hcross : ∑ k, w k • -((Pi.single k 1 : Vector3 K) ⨯₃ p) = -(w ⨯₃ p) := by
    conv_rhs => rw [← hbasis w, ← LinearMap.flip_apply, map_sum, ← Finset.sum_neg_distrib]
    simp only [map_smul, smul_neg, LinearMap.flip_apply]
  refine Prod.ext ?_ ?_
  · simp only [unitRoot, Prod.fst_add, Prod.fst_sum, Prod.smul_fst]
    rw [hbasis, hcross, ← sub_eq_add_neg]
  · simp only [unitRoot, Prod.snd_add, Prod.snd_sum, Prod.smul_snd, smul_zero,
      Finset.sum_const_zero, zero_add]
    exact hbasis w

/-- The unit accelerations of the joints. -/
def unitRate : Dof ι → ι → K
  | .inl _ => 0
  | .inr (.inl _) => 0
  | .inr (.inr j) => Pi.single j 1

/-- The accelerations of all links under one unit acceleration, for a root at `p` and joints with
the axes `S`. -/
def unitField (t : LinkTree ι) (p : Vector3 K) (S : ι → Spatial K) (d : Dof ι) : ι → Spatial K :=
  t.grow (unitRoot p d) fun i ↦ (unitRate d i : K) • S i

/-- What a pass leaves for one degree of freedom: the force on the root, the moment about its
position, or the torque of a joint. -/
def dofForce (t : LinkTree ι) (r : Store ι K × Spatial K) : Dof ι → K
  | .inl i => r.2.1 i
  | .inr (.inl i) => (r.2.2 - cross (r.1 t.root).p r.2.1) i
  | .inr (.inr j) => (r.1 j).u

/-- A degree of freedom of the tree. -/
def IsDof (t : LinkTree ι) : Dof ι → Prop
  | .inl _ => True
  | .inr (.inl _) => True
  | .inr (.inr j) => j ∈ t.child.links

/-- The generalized force of forces `F` on the links: their sum, its moment about the root, and the
forces below a joint along its axis. -/
def generalizedForce (t : LinkTree ι) (p : Vector3 K) (S F : ι → Spatial K) : Dof ι → K
  | .inl i => (t.links.map F).sum.1 i
  | .inr (.inl i) => ((t.links.map F).sum.2 - cross p (t.links.map F).sum.1) i
  | .inr (.inr j) => spatialPower (S j) (t.subtreeSum F j)

variable {d : Dof ι}

/-- The generalized force is the power of the forces along the unit accelerations. -/
theorem sum_spatialDot_unitField (t : LinkTree ι) (p : Vector3 K) (S F : ι → Spatial K)
    (hd : IsDof t d) :
    (t.links.map fun k ↦ spatialDot (unitField t p S d k) (F k)).sum =
      generalizedForce t p S F d := by
  have hsub : ∀ i (x : Spatial K), t.subtreeSum (fun k ↦ (spatialDot (K := K)).flip (F k)) i x =
      spatialDot x (t.subtreeSum F i) := fun i x ↦ by
    have hmap := t.map_subtreeSum
      ((spatialDot (K := K)).flip : Spatial K →ₗ[K] Spatial K →ₗ[K] K).toAddMonoidHom F i
    exact (congrArg (fun φ : Spatial K →ₗ[K] K ↦ φ x) hmap.symm)
  have hsum : (t.links.map fun k ↦ spatialDot (unitField t p S d k) (F k)).sum =
      spatialDot (unitRoot p d) (t.links.map F).sum +
        (t.child.links.map fun i ↦
          spatialDot ((unitRate d i : K) • S i) (t.subtreeSum F i)).sum := by
    have heq := t.sum_apply_eq (fun k ↦ (spatialDot (K := K)).flip (F k))
      (V := unitField t p S d) (x := fun i ↦ (unitRate d i : K) • S i)
      fun q c hpc ↦ t.grow_child _ _ hpc
    simp only [hsub] at heq
    rw [t.subtreeSum_root, unitField, t.grow_root] at heq
    exact heq
  rw [hsum]
  rcases d with i | i | j
  · simp [unitRoot, unitRate, generalizedForce]
  · have hswap : ∀ f : Vector3 K, p ⨯₃ Pi.single i 1 ⬝ᵥ f =
        -(p ⨯₃ f) i := fun f ↦ by
      rw [dotProduct_comm, triple_product_permutation, triple_product_permutation,
        ← cross_anticomm p f, dotProduct_neg, single_one_dotProduct]
    simp [unitRoot, unitRate, generalizedForce, hswap]
    ring
  · have hj : t.child.links.count j = 1 := List.count_eq_one_of_mem t.child_nodup hd
    have hsingle : ∀ i, i ≠ j → i ∈ t.child.links →
        spatialDot ((unitRate (.inr (.inr j)) i : K) • S i) (t.subtreeSum F i) = 0 :=
      fun i hne _ ↦ by
        rw [unitRate, Pi.single_eq_of_ne hne, zero_smul, map_zero, LinearMap.zero_apply]
    rw [List.sum_map_eq_nsmul_single j _ hsingle, hj, one_nsmul, unitRate, Pi.single_eq_same,
      one_smul, unitRoot, map_zero, LinearMap.zero_apply, zero_add, generalizedForce]

theorem generalizedForce_congr (t : LinkTree ι) (p : Vector3 K) {S S' F F' : ι → Spatial K}
    (hd : IsDof t d) (hS : ∀ i ∈ t.child.links, S i = S' i) (hF : ∀ k ∈ t.links, F k = F' k) :
    generalizedForce t p S F d = generalizedForce t p S' F' d := by
  have hsum : (t.links.map F).sum = (t.links.map F').sum :=
    congrArg List.sum (List.map_congr_left hF)
  rcases d with i | i | j
  · rw [generalizedForce, generalizedForce, hsum]
  · rw [generalizedForce, generalizedForce, hsum]
  · rw [generalizedForce, generalizedForce, hS j hd, t.subtreeSum_congr fun k hk ↦
      hF k ((t.below_sublist (List.mem_cons_of_mem _ hd)).subset hk)]

theorem generalizedForce_add (t : LinkTree ι) (p : Vector3 K) (S F F' : ι → Spatial K)
    (d : Dof ι) : generalizedForce t p S (fun k ↦ F k + F' k) d =
      generalizedForce t p S F d + generalizedForce t p S F' d := by
  rcases d with i | i | j
  · rw [generalizedForce, generalizedForce, generalizedForce, List.sum_map_add, Prod.fst_add,
      Pi.add_apply]
  · simp only [generalizedForce, List.sum_map_add, Prod.fst_add, Prod.snd_add, map_add,
      Pi.sub_apply, Pi.add_apply]
    ring
  · rw [generalizedForce, t.subtreeSum_add, spatialPower, map_add]
    rfl

theorem generalizedForce_smul (t : LinkTree ι) (p : Vector3 K) (S : ι → Spatial K) (c : K)
    (F : ι → Spatial K) (d : Dof ι) : generalizedForce t p S (fun k ↦ c • F k) d =
      c * generalizedForce t p S F d := by
  have hsub : ∀ i, t.subtreeSum (fun k ↦ c • F k) i = c • t.subtreeSum F i := fun i ↦
    (t.map_subtreeSum (LinearMap.lsmul K (Spatial K) c).toAddMonoidHom F i).symm
  have hsum : (t.links.map fun k ↦ c • F k).sum = c • (t.links.map F).sum := by
    rw [← t.subtreeSum_root, hsub, t.subtreeSum_root]
  rcases d with i | i | j
  · rw [generalizedForce, generalizedForce, hsum, Prod.smul_fst, Pi.smul_apply, smul_eq_mul]
  · rw [generalizedForce, generalizedForce, hsum, Prod.smul_fst, Prod.smul_snd, cross,
      LinearMap.map_smul, ← smul_sub, Pi.smul_apply, smul_eq_mul]
  · rw [generalizedForce, generalizedForce, hsub, spatialPower, LinearMap.map_smul, smul_eq_mul]

theorem generalizedForce_zero (t : LinkTree ι) (p : Vector3 K) (S : ι → Spatial K) (d : Dof ι) :
    generalizedForce t p S (fun _ ↦ 0) d = 0 := by
  have hsmul := generalizedForce_smul t p S 0 (fun _ ↦ 0) d
  simp only [smul_zero] at hsmul
  rw [hsmul, zero_mul]

theorem generalizedForce_sum {γ : Type*} [Fintype γ] (t : LinkTree ι) (p : Vector3 K)
    (S : ι → Spatial K) (x : γ → K) (F : γ → ι → Spatial K) (d : Dof ι) :
    generalizedForce t p S (fun k ↦ ∑ e, x e • F e k) d =
      ∑ e, x e * generalizedForce t p S (F e) d := by
  set φ : (ι → Spatial K) →ₗ[K] K := IsLinearMap.mk' (fun F ↦ generalizedForce t p S F d)
    ⟨fun F F' ↦ generalizedForce_add t p S F F' d,
      fun c F ↦ generalizedForce_smul t p S c F d⟩ with hφ
  have hfun : (fun k ↦ ∑ e, x e • F e k) = ∑ e, x e • F e := by
    funext k
    rw [Finset.sum_apply]
    rfl
  have hval : ∀ F, φ F = generalizedForce t p S F d := fun _ ↦ rfl
  rw [hfun, ← hval, map_sum]
  exact Finset.sum_congr rfl fun e _ ↦ generalizedForce_smul t p S (x e) (F e) d

/-- **Two passes over the same links**, read at one degree of freedom: they differ by the
generalized force of the inertias under the difference of the accelerations. -/
theorem AccelAffine.dofForce_sub (h : AccelAffine step force clear inertia)
    (hsame : SameLinks clear t s s') (hr : PassResult step force t s r)
    (hr' : PassResult step force t s' r') {x : Spatial K} {y : ι → K}
    (hroot : accel (s t.root) - accel (s' t.root) = x)
    (hddq : ∀ i ∈ t.child.links, (s i).ddq - (s' i).ddq = y i) (hd : IsDof t d) :
    dofForce t r d - dofForce t r' d = generalizedForce t (r'.1 t.root).p (fun i ↦ axis (r'.1 i))
      (fun k ↦ inertia (r'.1 k) (t.grow x (fun i ↦ y i • axis (r'.1 i)) k)) d := by
  have hp : (r.1 t.root).p = (r'.1 t.root).p :=
    (congrArg Link.p (h.rest_eq hsame hr hr' t.root t.root_mem) :)
  obtain ⟨-, hout, hu⟩ := h.sub hsame hr hr' (D := t.grow x fun i ↦ y i • axis (r'.1 i))
    (by rw [t.grow_root, hroot]) fun p c hpc ↦ by
      rw [t.grow_child _ _ hpc, hddq c (t.mem_child_of_parent hpc)]
  rcases d with i | i | j
  · rw [generalizedForce, ← hout]
    rfl
  · rw [generalizedForce, ← hout, dofForce, dofForce, hp, Prod.fst_sub, Prod.snd_sub, cross,
      cross, cross, LinearMap.map_sub]
    simp only [Pi.sub_apply]
    ring
  · exact hu j hd

/-! ### One unit acceleration at a time -/

/-- The link but for its torque. -/
def withoutTorque (link : Link K) : Link K :=
  { link with u := 0 }

/-- What a pass reads of the links is the same. -/
structure SameInputs (clear : Link K → Link K) (t : LinkTree ι) (s s' : Store ι K) : Prop where
  root : withoutTorque (s t.root) = withoutTorque (s' t.root)
  joint : ∀ i ∈ t.child.links, clear (s i) = clear (s' i)

section

omit [DecidableEq ι]

theorem SameInputs.trans {s s' s'' : Store ι K} (h : SameInputs clear t s s')
    (h' : SameInputs clear t s' s'') : SameInputs clear t s s'' :=
  ⟨h.root.trans h'.root, fun i hi ↦ (h.joint i hi).trans (h'.joint i hi)⟩

theorem SameInputs.sameLinks (h : SameInputs clear t s s') : SameLinks clear t s s' :=
  ⟨congrArg (fun L : Link K ↦ { L with dvo := 0, dw := 0, ddq := 0 }) h.root,
    fun i hi ↦ congrArg atRest (h.joint i hi)⟩

theorem SameInputs.accel_eq (h : SameInputs clear t s s') : accel (s t.root) = accel (s' t.root) :=
  (congrArg (fun L : Link K ↦ (L.dvo, L.dw)) h.root :)

theorem AccelAffine.ddq_eq (h : AccelAffine step force clear inertia) {s s' : Store ι K}
    (hsame : SameInputs clear t s s') {i : ι} (hi : i ∈ t.child.links) :
    (s i).ddq = (s' i).ddq := by
  rw [← h.clear_ddq (s i), hsame.joint i hi, h.clear_ddq]

end

theorem AccelAffine.sameInputs (h : AccelAffine step force clear inertia)
    (hr : PassResult step force t s r) : SameInputs clear t r.1 s :=
  ⟨by rw [hr.root]; rfl, h.clear_eq hr⟩

/-- `root->dvo[k] += 1.0;` -/
def pushLinear (k : Fin 3) (root : Link K) : Link K :=
  { root with dvo := root.dvo + Pi.single k 1 }

/-- `root->dvo[k] -= 1.0;` -/
def releaseLinear (k : Fin 3) (root : Link K) : Link K :=
  { root with dvo := root.dvo - Pi.single k 1 }

/-- `root->dw[k] = 1.0; dw_x_p = root->dw.cross(root->p); root->dvo -= dw_x_p;` -/
def pushAngular (k : Fin 3) (root : Link K) : Link K :=
  let root := { root with dw := Function.update root.dw k 1 }
  { root with dvo := root.dvo - cross root.dw root.p }

/-- `root->dvo += dw_x_p; root->dw[k] = 0.0;` -/
def releaseAngular (k : Fin 3) (root : Link K) : Link K :=
  let root := { root with dvo := root.dvo + cross root.dw root.p }
  { root with dw := Function.update root.dw k 0 }

/-- The state in which the column of a degree of freedom is measured. -/
def pushDof (t : LinkTree ι) (s : Store ι K) : Dof ι → Store ι K
  | .inl k => Function.update s t.root (pushLinear k (s t.root))
  | .inr (.inl k) => Function.update s t.root (pushAngular k (s t.root))
  | .inr (.inr j) => Function.update s j (setDdq 1 (s j))

/-- The state after the column. -/
def releaseDof (t : LinkTree ι) (s : Store ι K) : Dof ι → Store ι K
  | .inl k => Function.update s t.root (releaseLinear k (s t.root))
  | .inr (.inl k) => Function.update s t.root (releaseAngular k (s t.root))
  | .inr (.inr j) => Function.update s j (setDdq 0 (s j))

section

omit [DecidableEq ι]

theorem releaseLinear_pushLinear (k : Fin 3) (root : Link K) :
    releaseLinear k (pushLinear k root) = root := by
  rw [releaseLinear, pushLinear, add_sub_cancel_right]

theorem releaseAngular_pushAngular (k : Fin 3) {root : Link K} (h : root.dw = 0) :
    releaseAngular k (pushAngular k root) = root := by
  have hdw : Function.update root.dw k 0 = root.dw := by
    rw [Function.update_eq_self_iff, h]
    rfl
  rw [releaseAngular, pushAngular, sub_add_cancel]
  simp only [Function.update_idem, hdw]

end

/-- A state in which all accelerations are zero but the linear one of the root. -/
structure Cleared (t : LinkTree ι) (s : Store ι K) : Prop where
  dw : (s t.root).dw = 0
  ddq : ∀ i ∈ t.child.links, (s i).ddq = 0

omit [DecidableEq ι] in
theorem AccelAffine.cleared (h : AccelAffine step force clear inertia)
    (hsame : SameInputs clear t s s') (hs' : Cleared t s') : Cleared t s :=
  ⟨(congrArg (fun L : Link K ↦ L.dw) hsame.root).trans hs'.dw,
    fun i hi ↦ (h.ddq_eq hsame hi).trans (hs'.ddq i hi)⟩

/-- Only the accelerations change, by the unit acceleration. -/
theorem AccelAffine.pushDof_spec (h : AccelAffine step force clear inertia) (hs : Cleared t s)
    (hd : IsDof t d) :
    SameLinks clear t (pushDof t s d) s ∧
      accel (pushDof t s d t.root) - accel (s t.root) = unitRoot (s t.root).p d ∧
      ∀ i ∈ t.child.links, (pushDof t s d i).ddq - (s i).ddq = unitRate d i := by
  have hne : ∀ i ∈ t.child.links, i ≠ t.root := fun i hi ↦ t.ne_root_of_mem_child hi
  rcases d with k | k | j
  · rw [pushDof]
    refine ⟨⟨?_, fun i hi ↦ ?_⟩, ?_, fun i hi ↦ ?_⟩
    · rw [Function.update_self]
      rfl
    · rw [Function.update_of_ne (hne i hi)]
    · rw [Function.update_self]
      exact Prod.ext (add_sub_cancel_left _ _) (sub_self _)
    · rw [Function.update_of_ne (hne i hi), sub_self]
      rfl
  · rw [pushDof]
    refine ⟨⟨?_, fun i hi ↦ ?_⟩, ?_, fun i hi ↦ ?_⟩
    · rw [Function.update_self]
      rfl
    · rw [Function.update_of_ne (hne i hi)]
    · have hdw : Function.update (s t.root).dw k 1 = Pi.single k 1 := by rw [hs.dw]; rfl
      rw [Function.update_self, unitRoot, pushAngular, hdw]
      refine Prod.ext ?_ ?_
      · show (s t.root).dvo - _ - (s t.root).dvo = _
        rw [sub_sub_cancel_left]
      · show Pi.single k 1 - (s t.root).dw = _
        rw [hs.dw, sub_zero]
    · rw [Function.update_of_ne (hne i hi), sub_self]
      rfl
  · have hj : t.root ≠ j := (hne j hd).symm
    rw [pushDof]
    refine ⟨⟨?_, fun i hi ↦ ?_⟩, ?_, fun i hi ↦ ?_⟩
    · rw [Function.update_of_ne hj]
    · rcases eq_or_ne i j with rfl | hij
      · rw [Function.update_self, h.clear_setDdq]
        rfl
      · rw [Function.update_of_ne hij]
    · rw [Function.update_of_ne hj, sub_self]
      rfl
    · rw [unitRate]
      rcases eq_or_ne i j with rfl | hij
      · rw [Function.update_self, Pi.single_eq_same, hs.ddq i hi, sub_zero]
        rfl
      · rw [Function.update_of_ne hij, Pi.single_eq_of_ne hij, sub_self]

/-- The state comes back, as far as a pass reads it. -/
theorem AccelAffine.releaseDof_spec (h : AccelAffine step force clear inertia) (hs : Cleared t s)
    (hd : IsDof t d) (hs' : SameInputs clear t s' (pushDof t s d)) :
    SameInputs clear t (releaseDof t s' d) s := by
  have hne : ∀ i ∈ t.child.links, i ≠ t.root := fun i hi ↦ t.ne_root_of_mem_child hi
  rcases d with k | k | j
  · rw [pushDof] at hs'
    rw [releaseDof]
    refine ⟨?_, fun i hi ↦ ?_⟩
    · have hroot := congrArg (releaseLinear k) hs'.root
      rw [Function.update_self] at hroot
      rw [Function.update_self]
      refine hroot.trans ?_
      show withoutTorque (releaseLinear k (pushLinear k (s t.root))) = _
      rw [releaseLinear_pushLinear]
    · have hi' := hs'.joint i hi
      rw [Function.update_of_ne (hne i hi)] at hi'
      rwa [Function.update_of_ne (hne i hi)]
  · rw [pushDof] at hs'
    rw [releaseDof]
    refine ⟨?_, fun i hi ↦ ?_⟩
    · have hroot := congrArg (releaseAngular k) hs'.root
      rw [Function.update_self] at hroot
      rw [Function.update_self]
      refine hroot.trans ?_
      show withoutTorque (releaseAngular k (pushAngular k (s t.root))) = _
      rw [releaseAngular_pushAngular k hs.dw]
    · have hi' := hs'.joint i hi
      rw [Function.update_of_ne (hne i hi)] at hi'
      rwa [Function.update_of_ne (hne i hi)]
  · have hj : t.root ≠ j := (hne j hd).symm
    rw [pushDof] at hs'
    rw [releaseDof]
    refine ⟨?_, fun i hi ↦ ?_⟩
    · have hroot := hs'.root
      rw [Function.update_of_ne hj] at hroot
      rwa [Function.update_of_ne hj]
    · have hi' := hs'.joint i hi
      rcases eq_or_ne i j with rfl | hij
      · rw [Function.update_self, h.clear_setDdq] at hi'
        rw [Function.update_self, h.clear_setDdq]
        refine (congrArg (setDdq 0) hi').trans ?_
        show setDdq 0 (clear (s i)) = clear (s i)
        have hzero : (clear (s i)).ddq = 0 := (h.clear_ddq _).trans (hs.ddq i hi)
        rw [setDdq, ← hzero]
      · rw [Function.update_of_ne hij] at hi'
        rwa [Function.update_of_ne hij]

/-- An entry of a mass matrix: the power, along the unit acceleration `d`, of the forces that the
unit acceleration `e` takes. -/
def massEntry (t : LinkTree ι) (p : Vector3 K) (S : ι → Spatial K)
    (G : ι → Spatial K →ₗ[K] Spatial K) (d e : Dof ι) : K :=
  (t.links.map fun k ↦ spatialPower (unitField t p S d k) (G k (unitField t p S e k))).sum

/-- A row of a mass matrix applied to accelerations: the generalized force of the inertias under
the motion that has these accelerations. -/
theorem sum_mul_massEntry {γ : Type*} [Fintype γ] (t : LinkTree ι) (p : Vector3 K)
    (S : ι → Spatial K) (G : ι → Spatial K →ₗ[K] Spatial K) (x : γ → K) (dof : γ → Dof ι)
    (hd : IsDof t d) :
    ∑ e, x e * massEntry t p S G d (dof e) = generalizedForce t p S (fun k ↦ G k
      (t.grow (∑ e, x e • unitRoot p (dof e))
        (fun i ↦ (∑ e, x e * unitRate (dof e) i) • S i) k)) d := by
  have hfield : ∀ k ∈ t.links, G k (t.grow (∑ e, x e • unitRoot p (dof e))
      (fun i ↦ (∑ e, x e * unitRate (dof e) i) • S i) k) =
        ∑ e, x e • G k (unitField t p S (dof e) k) := fun k hk ↦ by
    have hrate : (fun i ↦ (∑ e, x e * unitRate (dof e) i) • S i) =
        ∑ e, fun i ↦ x e • ((unitRate (dof e) i : K) • S i) := by
      funext i
      rw [Finset.sum_apply, Finset.sum_smul]
      simp only [mul_smul]
    have hsmul : ∀ e, t.grow (x e • unitRoot p (dof e))
        (fun i ↦ x e • ((unitRate (dof e) i : K) • S i)) k = x e • unitField t p S (dof e) k :=
      fun e ↦ (t.map_grow (LinearMap.lsmul K (Spatial K) (x e)).toAddMonoidHom _ _ hk).symm
    rw [hrate, t.grow_sum _ _ _ hk, map_sum]
    simp only [hsmul, map_smul]
  rw [generalizedForce_congr t p hd (fun _ _ ↦ rfl) hfield, generalizedForce_sum]
  exact Finset.sum_congr rfl fun e _ ↦ by rw [massEntry, sum_spatialDot_unitField t _ _ _ hd]

/-- What the column of the unit acceleration `e` adds to that of no acceleration. -/
theorem AccelAffine.dofForce_pushDof (h : AccelAffine step force clear inertia) {s s₀ : Store ι K}
    (hs : SameInputs clear t s s₀) (hs₀ : Cleared t s₀) {d e : Dof ι} (hd : IsDof t d)
    (he : IsDof t e) {r r₀ : Store ι K × Spatial K}
    (hr : PassResult step force t (pushDof t s e) r) (hr₀ : PassResult step force t s₀ r₀) :
    dofForce t r d = dofForce t r₀ d + massEntry t (r₀.1 t.root).p (fun i ↦ axis (r₀.1 i))
      (fun i ↦ inertia (r₀.1 i)) d e := by
  obtain ⟨hlinks, hroot, hddq⟩ := h.pushDof_spec (h.cleared hs hs₀) he
  have hp : (s t.root).p = (r₀.1 t.root).p := by
    rw [hr₀.root]
    exact (congrArg Link.p hs.root :)
  have hlinks₀ : SameLinks clear t (pushDof t s e) s₀ :=
    ⟨hlinks.root.trans hs.sameLinks.root,
      fun i hi ↦ (hlinks.joint i hi).trans (hs.sameLinks.joint i hi)⟩
  rw [hs.accel_eq, hp] at hroot
  have hddq₀ : ∀ i ∈ t.child.links, (pushDof t s e i).ddq - (s₀ i).ddq = unitRate e i :=
    fun i hi ↦ by rw [← h.ddq_eq hs hi, hddq i hi]
  rw [← sub_eq_iff_eq_add', h.dofForce_sub hlinks₀ hr hr₀ hroot hddq₀ hd, massEntry,
    sum_spatialDot_unitField t _ _ _ hd]
  rfl

end AccelAffine

end OpenHRP
