import OpenHRP.Kinematics.Rerooting
import OpenHRP.Model.LinkPath
import OpenHRP.Model.RealMath

/-!
# Joint paths

A `JointPath` keeps, of the links on a path, those whose joints are meant to move its end relative
to its base. A joint connects its link to the parent of the link, so on a path that goes up and
then down again the joint of the turning link is not on the way: forward kinematics along the path
does not read its value. `extractJoints` skips the base when the path only goes down and the end
when it only goes up, but it does not skip a turning link in between.

`find` therefore lists the moving joints, in path order, exactly when the path has no such link
with a joint (`find_holdsMovingJoints_iff`).
-/

open Matrix

namespace OpenHRP

variable {ι K : Type*}

/-! ### The class -/

/-- A path, the joints extracted from it, and how many of those the path goes up along. -/
structure JointPath (ι : Type*) where
  linkPath : LinkTraverse ι
  joints : List ι
  numUpwardJointConnections : ℕ
  deriving DecidableEq, Repr

/-- `LinkTraverse::isDownward`. -/
def LinkTraverse.isDownward (tr : LinkTraverse ι) (index : ℕ) : Bool :=
  tr.numUpwardConnections ≤ index

/-- The links that count as joints: a nonnegative `jointId` and one degree of freedom. -/
def IsJoint (link : Link K) : Prop :=
  0 ≤ link.jointId ∧ (link.jointType = .rotationalJoint ∨ link.jointType = .slideJoint)

instance (link : Link K) : Decidable (IsJoint link) :=
  inferInstanceAs (Decidable (_ ∧ _))

namespace JointPath

/-- One turn of the loop of `extractJoints`, at index `i`. -/
def extractStep (s : Store ι K) (linkPath : LinkTraverse ι) (r : List ι × ℕ) (i : ℕ) :
    List ι × ℕ :=
  linkPath.links[i]?.elim r fun link ↦
    if IsJoint (s link) then
      (r.1 ++ [link], if linkPath.isDownward i then r.2 else r.2 + 1)
    else r

/-- `JointPath::extractJoints`. -/
def extractJoints (s : Store ι K) (path : JointPath ι) : JointPath ι :=
  let n := path.linkPath.links.length
  if n ≤ 1 then { path with joints := [], numUpwardJointConnections := 0 }
  else
    let i := if path.linkPath.isDownward 0 then 1 else 0
    let m := n - 1
    let r := (List.range' i (m - i)).foldl (extractStep s path.linkPath) ([], 0)
    let last := if path.linkPath.isDownward (m - 1) then path.linkPath.links[m]? else none
    { path with
      joints := r.1 ++ last.toList.filter fun link ↦ IsJoint (s link)
      numUpwardJointConnections := r.2 }

/-- `JointPath::find(base, end)`: whether there are joints, and the path. If no path of links is
found, the joints stay as they were. -/
def find [DecidableEq ι] (t : LinkTree ι) (s : Store ι K) (path : JointPath ι)
    (base endLink : ι) : Bool × JointPath ι :=
  let r := LinkPath.find t base endLink
  let path := { path with linkPath := r.2 }
  let path := if r.1 then extractJoints s path else path
  (!path.joints.isEmpty, path)

variable [Field K]

/-- One column of `calcJacobian`: the linear and the angular velocity of the point `localP` of the
end link per unit of joint velocity. -/
def jacobianColumn (targetLink : Link K) (localP : Vector3 K) (isJointDownward : Bool)
    (link : Link K) : Vector3 K × Vector3 K :=
  match link.jointType with
  | .rotationalJoint =>
    let arm := targetLink.p + targetLink.R *ᵥ localP - link.p
    let omega := if isJointDownward then link.R *ᵥ link.a else -(link.R *ᵥ link.a)
    (cross omega arm, omega)
  | .slideJoint => (if isJointDownward then link.R *ᵥ link.d else -(link.R *ᵥ link.d), 0)
  | .fixedJoint | .freeJoint => (0, 0)

/-- `JointPath::calcJacobian`, as the list of its columns. A path with joints has an end link. -/
def calcJacobian (s : Store ι K) (path : JointPath ι) (localP : Vector3 K) :
    List (Vector3 K × Vector3 K) :=
  path.linkPath.links.getLast?.elim [] fun targetLink ↦
    path.joints.mapIdx fun i link ↦
      jacobianColumn (s targetLink) localP (path.numUpwardJointConnections ≤ i) (s link)

end JointPath

/-! ### What is extracted -/

namespace JointPath

/-- The loop of `extractJoints` filters the links it runs over, and counts the upward ones. -/
theorem foldl_extractStep (s : Store ι K) (linkPath : LinkTraverse ι) (i k : ℕ)
    (hk : i + k ≤ linkPath.links.length) (r : List ι × ℕ) :
    (List.range' i k).foldl (extractStep s linkPath) r =
      (r.1 ++ ((linkPath.links.drop i).take k).filter fun link ↦ IsJoint (s link),
        r.2 + ((((linkPath.links.take linkPath.numUpwardConnections).drop i).take k).filter
          fun link ↦ IsJoint (s link)).length) := by
  induction k generalizing i r with
  | zero => simp
  | succ k ih =>
    have hi : i < linkPath.links.length := by omega
    rw [List.range'_succ, List.foldl_cons, ih (i + 1) (by omega), extractStep,
      List.getElem?_eq_getElem hi, Option.elim_some, List.drop_eq_getElem_cons hi,
      List.take_succ_cons]
    by_cases hup : i < linkPath.numUpwardConnections
    · -- an index of the upward part: the link is in both lists
      have hitake : i < (linkPath.links.take linkPath.numUpwardConnections).length := by
        rw [List.length_take]
        omega
      rw [List.drop_eq_getElem_cons hitake, List.take_succ_cons, List.getElem_take,
        LinkTraverse.isDownward, decide_eq_false (by omega)]
      by_cases hjoint : IsJoint (s linkPath.links[i])
      · simp [hjoint]
        omega
      · simp [hjoint]
    · have hnil : ∀ j, i ≤ j →
          (linkPath.links.take linkPath.numUpwardConnections).drop j = [] := fun j hj ↦
        List.drop_eq_nil_of_le (by rw [List.length_take]; omega)
      rw [hnil i le_rfl, hnil (i + 1) (by omega), LinkTraverse.isDownward,
        decide_eq_true (by omega)]
      by_cases hjoint : IsJoint (s linkPath.links[i])
      · simp [hjoint]
      · simp [hjoint]

/-- `extractJoints` on an upward part `ups`, a turning link `top` and a downward part `downs`. -/
theorem extractJoints_eq (s : Store ι K) (path : JointPath ι) {ups downs : List ι} {top : ι}
    (h : path.linkPath = ⟨ups ++ top :: downs, ups.length⟩) :
    extractJoints s path =
      { path with
        joints := (ups ++ ((if ups = [] ∨ downs = [] then [] else [top]) ++ downs)).filter
          fun link ↦ IsJoint (s link)
        numUpwardJointConnections := (ups.filter fun link ↦ IsJoint (s link)).length } := by
  have hups : ups = [] ∨ 0 < ups.length := by
    rw [List.length_pos_iff]
    exact eq_or_ne ups []
  rcases List.eq_nil_or_concat downs with rfl | ⟨l, e, rfl⟩
  · rcases hups with rfl | hpos
    · simp [extractJoints, h]
    · have hne : ups ≠ [] := List.length_pos_iff.1 hpos
      have hn : ¬(ups ++ [top]).length ≤ 1 := by
        rw [List.length_append, List.length_singleton]
        omega
      have hlast : ¬ups.length ≤ ups.length - 1 := by omega
      rw [extractJoints, h]
      simp only [if_neg hn]
      rw [foldl_extractStep _ _ _ _ (by simp [LinkTraverse.isDownward, hne])]
      simp [LinkTraverse.isDownward, hne, hlast]
  · -- the loop stops before the last link, which is then added as the end of a downward part
    rw [List.concat_eq_append] at h ⊢
    have hlen : (ups ++ top :: (l ++ [e])).length = ups.length + (l.length + 1) + 1 := by
      simp
      omega
    have hn : ¬(ups ++ top :: (l ++ [e])).length ≤ 1 := by omega
    have htake : (ups ++ top :: (l ++ [e])).take (ups.length + (l.length + 1)) =
        ups ++ top :: l := by
      rw [List.take_length_add_append, List.take_succ_cons, List.take_left' rfl]
    rcases hups with rfl | hpos
    · have hk : 1 + (l.length + 1 - 1) ≤ ([top] ++ (l ++ [e])).length := by simp; omega
      rw [extractJoints, h]
      simp only [if_neg hn]
      rw [foldl_extractStep _ _ _ _ (by simpa [LinkTraverse.isDownward] using hk)]
      simp [LinkTraverse.isDownward]
    · have hne : ups ≠ [] := List.length_pos_iff.1 hpos
      have htake' : ups.take (ups.length + (l.length + 1)) = ups :=
        List.take_of_length_le (by omega)
      rw [extractJoints, h]
      simp only [if_neg hn]
      rw [foldl_extractStep _ _ _ _ (by simp [LinkTraverse.isDownward, hne])]
      simp [LinkTraverse.isDownward, hne, hlen, htake, htake', List.filter_cons]
      split_ifs <;> simp

/-- The Jacobian has no more columns than the path has joints. -/
theorem length_calcJacobian_le [Field K] (s : Store ι K) (path : JointPath ι)
    (localP : Vector3 K) : (path.calcJacobian s localP).length ≤ path.joints.length := by
  rw [calcJacobian]
  cases path.linkPath.links.getLast? with
  | none => simp
  | some targetLink => rw [Option.elim_some, List.length_mapIdx]

end JointPath

/-! ### Moving one joint -/

section Moving

variable [DecidableEq ι] {t : LinkTree ι} {base endLink top : ι} {ups downs : List ι} [Field K]
  [CMath K]

/-- The body with the joint value of `j` set to `q`. -/
def setJointValue (s : Store ι K) (j : ι) (q : K) : Store ι K :=
  Function.update s j { s j with q := q }

section

omit [Field K] [CMath K]

theorem setJointValue_of_ne (s : Store ι K) {i j : ι} (h : i ≠ j) (q : K) :
    setJointValue s j q i = s i :=
  Function.update_of_ne h _ _

theorem pose_setJointValue (s : Store ι K) (i j : ι) (q : K) :
    pose (setJointValue s j q i) = pose (s i) := by
  rcases eq_or_ne i j with rfl | h
  · rw [setJointValue, Function.update_self]
    rfl
  · rw [setJointValue_of_ne s h]

end

/-- Links on both sides of a joint cannot both stay where they are when the joint moves. -/
theorem IsPlaced.joint_eq {P C P' C' : Link K} (h : IsPlaced P C) (h' : IsPlaced P' C')
    (hR : P.Rᵀ * P.R = 1) (hP : pose P' = pose P) (hC : pose C' = pose C) :
    jointRotation C' = jointRotation C ∧ jointOffset C' = jointOffset C := by
  have hPR : P'.R = P.R := congrArg Prod.snd hP
  have hPp : P'.p = P.p := congrArg Prod.fst hP
  have hCR : P.R * jointRotation C' = P.R * jointRotation C := by
    rw [← h.R, ← hPR, ← h'.R]
    exact congrArg Prod.snd hC
  have hCp : P.R *ᵥ jointOffset C' = P.R *ᵥ jointOffset C := by
    have hp : C'.p = C.p := congrArg Prod.fst hC
    rw [h.p, h'.p, hPR, hPp] at hp
    exact add_left_cancel hp
  constructor
  · calc jointRotation C' = P.Rᵀ * (P.R * jointRotation C') := by
          rw [← Matrix.mul_assoc, hR, one_mul]
      _ = jointRotation C := by rw [hCR, ← Matrix.mul_assoc, hR, one_mul]
  · calc jointOffset C' = P.Rᵀ *ᵥ (P.R *ᵥ jointOffset C') := by
          rw [mulVec_mulVec, hR, one_mulVec]
      _ = jointOffset C := by rw [hCp, mulVec_mulVec, hR, one_mulVec]

/-- **Moving one joint** moves the links of a path on the other side of the joint, seen from the
base, and no others. -/
theorem IsPath.pose_setJointValue_iff (h : IsPath t base endLink ups top downs) {s : Store ι K}
    (hrot : ∀ i ∈ t.links, (jointRotation (s i))ᵀ * jointRotation (s i) = 1)
    (hR : (s base).Rᵀ * (s base).R = 1) {j : ι} {q : K}
    (hrot' : (jointRotation { s j with q := q })ᵀ * jointRotation { s j with q := q } = 1)
    (hmove : ¬(jointRotation { s j with q := q } = jointRotation (s j) ∧
      jointOffset { s j with q := q } = jointOffset (s j)))
    {i : ι} (hi : i ∈ ups ++ top :: downs) :
    let tr : LinkTraverse ι := ⟨ups ++ top :: downs, ups.length⟩
    pose (calcForwardKinematics t tr false false (setJointValue s j q) i) =
        pose (calcForwardKinematics t tr false false s i) ↔
      (i ∈ t.below j ↔ base ∈ t.below j) := by
  intro tr
  obtain ⟨ups', hups, htr⟩ := h.exists_isTraverse
  set f := calcForwardKinematics t tr false false s with hf
  set f' := calcForwardKinematics t tr false false (setJointValue s j q) with hf'
  have hconst : ∀ i, constants (f i) = constants (s i) :=
    constants_calcForwardKinematics htr false false s
  have hconst' : ∀ i, constants (f' i) = constants (setJointValue s j q i) :=
    constants_calcForwardKinematics htr false false _
  have hrotq : ∀ i ∈ t.links,
      (jointRotation (setJointValue s j q i))ᵀ * jointRotation (setJointValue s j q i) = 1 := by
    intro i hi
    rcases eq_or_ne i j with rfl | hij
    · rw [setJointValue, Function.update_self]
      exact hrot'
    · rw [setJointValue_of_ne s hij]
      exact hrot i hi
  -- the two ends of a connection, in both runs
  have hplaced : ∀ {p c}, t.parent c = some p → p ∈ tr.links → c ∈ tr.links →
      IsPlaced (f p) (f c) ∧ IsPlaced (f' p) (f' c) := fun hpc hp hc ↦
    ⟨isPlaced_calcForwardKinematics htr false false s hrot hpc hp hc,
      isPlaced_calcForwardKinematics htr false false _ hrotq hpc hp hc⟩
  have hother : ∀ {p c}, t.parent c = some p → p ∈ tr.links → c ∈ tr.links → c ≠ j →
      (pose (f' c) = pose (f c) ↔ pose (f' p) = pose (f p)) := by
    intro p c hpc hp hc hcj
    obtain ⟨hpl, hpl'⟩ := hplaced hpc hp hc
    have heq : constants (f' c) = constants (f c) := by
      rw [hconst, hconst', setJointValue_of_ne s hcj]
    refine hpl'.pose_iff hpl heq ?_
    rw [(joint_eq_of_constants (heq.trans (hconst c))).1]
    exact hrot c (t.parent_mem hpc).2
  have hjoint : ∀ {p}, t.parent j = some p → p ∈ tr.links → j ∈ tr.links →
      (f p).Rᵀ * (f p).R = 1 → ¬(pose (f' p) = pose (f p) ∧ pose (f' j) = pose (f j)) := by
    rintro p hpj hp hj hRp ⟨hposep, hposej⟩
    obtain ⟨hpl, hpl'⟩ := hplaced hpj hp hj
    obtain ⟨hrotation, hoffset⟩ := hpl.joint_eq hpl' hRp hposep hposej
    have hj₀ := joint_eq_of_constants (hconst j)
    have hj₁ := joint_eq_of_constants (hconst' j)
    rw [setJointValue, Function.update_self] at hj₁
    exact hmove ⟨hj₁.1.symm.trans (hrotation.trans hj₀.1),
      hj₁.2.symm.trans (hoffset.trans hj₀.2)⟩
  have horth : ∀ {p c}, t.parent c = some p → p ∈ tr.links → c ∈ tr.links →
      ((f c).Rᵀ * (f c).R = 1 ↔ (f p).Rᵀ * (f p).R = 1) := by
    intro p c hpc hp hc
    refine (hplaced hpc hp hc).1.orthogonal_iff ?_
    rw [(joint_eq_of_constants (hconst c)).1]
    exact hrot c (t.parent_mem hpc).2
  have key : ∀ i ∈ tr.links, i ∈ tr.links ∧ (f i).Rᵀ * (f i).R = 1 ∧
      (pose (f' i) = pose (f i) ↔ (i ∈ t.below j ↔ base ∈ t.below j)) := by
    have hlinks : tr.links = base :: (ups' ++ downs) := congrArg LinkTraverse.links htr.eq
    refine htr.induction ?_ ?_ ?_
    · refine ⟨by simp [hlinks], ?_, iff_of_true ?_ Iff.rfl⟩
      · rw [show (f base).R = (s base).R from
          (congrArg Link.R (calcForwardKinematics_base htr false false s) :)]
        exact hR
      · have hbase : pose (f base) = pose (s base) :=
          (congrArg pose (calcForwardKinematics_base htr false false s) :)
        have hbase' : pose (f' base) = pose (setJointValue s j q base) :=
          (congrArg pose
            (calcForwardKinematics_base htr false false (setJointValue s j q)) :)
        rw [hbase, hbase', pose_setJointValue]
    · rintro c p ⟨l, l', hl⟩ ⟨hc, hRc, hposec⟩
      have hpc : t.parent c = some p := by
        have hasc := htr.ascends
        rw [hl, Ascends, List.isChain_append] at hasc
        exact (List.isChain_cons_cons.1 hasc.2.1).1
      have hcu : c ∈ ups ++ [top] := by simp [hups, hl]
      have hp : p ∈ tr.links := by
        have hpu : p ∈ ups ++ [top] := by simp [hups, hl]
        rw [hlinks, ← List.cons_append, ← hups]
        exact List.mem_append_left _ hpu
      have hRp := (horth hpc hp hc).1 hRc
      refine ⟨hp, hRp, ?_⟩
      rcases eq_or_ne c j with rfl | hcj
      · -- the joint itself, met from below: `base` is on the side of its link
        have hbase : base ∈ t.below c := h.base_mem_below hcu
        have hself : c ∈ t.below c := List.mem_cons_self
        have hposec' := hposec.2 (iff_of_true hself hbase)
        refine iff_of_false (fun hposep ↦ hjoint hpc hp hc hRp ⟨hposep, hposec'⟩) ?_
        exact fun hiff ↦ t.notMem_below_of_parent hpc (hiff.2 hbase)
      · rw [← hother hpc hp hc hcj, hposec, t.mem_below_iff_of_parent hpc hcj]
    · rintro p c hcd hpc ⟨hp, hRp, hposep⟩
      have hc : c ∈ tr.links := by simp [hlinks, hcd]
      refine ⟨hc, (horth hpc hp hc).2 hRp, ?_⟩
      rcases eq_or_ne c j with rfl | hcj
      · -- the joint itself, met from above: `base` is on the side of the parent
        have hbase : base ∉ t.below c := h.base_notMem hcd
        have hposep' := hposep.2 (iff_of_false (t.notMem_below_of_parent hpc) hbase)
        refine iff_of_false (fun hposec ↦ hjoint hpc hp hc hRp ⟨hposep', hposec⟩) ?_
        exact fun hiff ↦ hbase (hiff.1 List.mem_cons_self)
      · rw [hother hpc hp hc hcj, hposep, t.mem_below_iff_of_parent hpc hcj]
  exact (key i hi).2.2

end Moving

/-! ### Joints on the way -/

section Connects

variable [DecidableEq ι]

/-- The joint of `i` connects two consecutive links of `l`, going up. -/
def connectsUpward (t : LinkTree ι) (l : List ι) (i : ι) : Bool :=
  (t.parent i).any fun p ↦ [i, p] <:+: l

/-- The joint of `i` connects two consecutive links of `l`, going down. -/
def connectsDownward (t : LinkTree ι) (l : List ι) (i : ι) : Bool :=
  (t.parent i).any fun p ↦ [p, i] <:+: l

variable {t : LinkTree ι} {base endLink top : ι} {ups downs : List ι}

theorem connectsUpward_iff {l : List ι} {i : ι} :
    connectsUpward t l i ↔ ∃ p, t.parent i = some p ∧ [i, p] <:+: l := by
  simp [connectsUpward, Option.any_eq_true]

theorem connectsDownward_iff {l : List ι} {i : ι} :
    connectsDownward t l i ↔ ∃ p, t.parent i = some p ∧ [p, i] <:+: l := by
  simp [connectsDownward, Option.any_eq_true]

theorem IsPath.connectsUpward_of_mem (h : IsPath t base endLink ups top downs) {i : ι}
    (hi : i ∈ ups) : connectsUpward t (ups ++ top :: downs) i := by
  obtain ⟨l, l', rfl⟩ := List.append_of_mem hi
  obtain ⟨p, l'', hp⟩ : ∃ p l'', l' ++ [top] = p :: l'' := by
    cases l' with
    | nil => exact ⟨top, [], rfl⟩
    | cons p l' => exact ⟨p, l' ++ [top], rfl⟩
  have hasc := h.ascends
  rw [List.append_assoc, List.cons_append, hp, Ascends, List.isChain_append] at hasc
  have hpi : t.parent i = some p := (List.isChain_cons_cons.1 hasc.2.1).1
  refine connectsUpward_iff.2 ⟨p, hpi, l, l'' ++ downs, ?_⟩
  calc l ++ [i, p] ++ (l'' ++ downs) = l ++ i :: (p :: l'') ++ downs := by simp
    _ = l ++ i :: l' ++ top :: downs := by simp [← hp]

theorem IsPath.connectsDownward_of_mem (h : IsPath t base endLink ups top downs) {i : ι}
    (hi : i ∈ downs) : connectsDownward t (ups ++ top :: downs) i := by
  obtain ⟨l, l', rfl⟩ := List.append_of_mem hi
  obtain ⟨l'', p, hp⟩ : ∃ l'' p, top :: l = l'' ++ [p] := by
    rcases List.eq_nil_or_concat l with rfl | ⟨l₁, p, rfl⟩
    · exact ⟨[], top, rfl⟩
    · exact ⟨top :: l₁, p, by simp⟩
  have hdesc := h.descends
  rw [← List.cons_append, hp, List.append_assoc, Chains, List.isChain_append] at hdesc
  have hpi : t.parent i = some p := (List.isChain_cons_cons.1 hdesc.2.1).1
  refine connectsDownward_iff.2 ⟨p, hpi, ups ++ l'', l', ?_⟩
  calc ups ++ l'' ++ [p, i] ++ l' = ups ++ (l'' ++ [p]) ++ i :: l' := by simp
    _ = ups ++ top :: (l ++ i :: l') := by simp [← hp]

/-- The joint of the turning link connects no two links of the path. -/
theorem IsPath.not_connects_top (h : IsPath t base endLink ups top downs) :
    ¬connectsUpward t (ups ++ top :: downs) top ∧
      ¬connectsDownward t (ups ++ top :: downs) top := by
  have hmem : ∀ p, t.parent top = some p → p ∉ ups ++ top :: downs := fun p hp hmem ↦ by
    have hlt := t.idxOf_parent_lt hp
    have hle := h.idxOf_top_le hmem
    omega
  constructor
  · intro hc
    obtain ⟨p, hp, hinside⟩ := connectsUpward_iff.1 hc
    exact hmem p hp (hinside.subset (by simp))
  · intro hc
    obtain ⟨p, hp, hinside⟩ := connectsDownward_iff.1 hc
    exact hmem p hp (hinside.subset (by simp))

/-- The downward part is not gone up. -/
theorem IsPath.not_connectsUpward_of_mem (h : IsPath t base endLink ups top downs) {i : ι}
    (hi : i ∈ downs) : ¬connectsUpward t (ups ++ top :: downs) i := by
  intro hup
  obtain ⟨p, hp, hinside⟩ := connectsUpward_iff.1 hup
  obtain ⟨p', hp', hinside'⟩ := connectsDownward_iff.1 (h.connectsDownward_of_mem hi)
  obtain rfl : p = p' := Option.some_inj.1 (hp.symm.trans hp')
  have hlt := Before.idxOf_lt h.nodup hinside.sublist
  have hlt' := Before.idxOf_lt h.nodup hinside'.sublist
  omega

end Connects

/-! ### What a joint path should hold -/

section Find

variable [DecidableEq ι]

/-- Some body with the same joints has its end moved by a change of the value of `j`: forward
kinematics along the path does not ignore it. -/
def MayMove (t : LinkTree ι) (linkPath : LinkTraverse ι) (endLink : ι) (s : Store ι ℝ)
    (j : ι) : Prop :=
  ∃ (s' : Store ι ℝ) (q : ℝ),
    (∀ i, (s' i).jointId = (s i).jointId ∧ (s' i).jointType = (s i).jointType) ∧
    pose (calcForwardKinematics t linkPath false false (setJointValue s' j q) endLink) ≠
      pose (calcForwardKinematics t linkPath false false s' endLink)

/-- The path leads from `base` to `endLink`, and its joints are, in path order, the links of the
path whose joints connect two consecutive links of it. -/
structure HoldsMovingJoints (t : LinkTree ι) (s : Store ι ℝ) (base endLink : ι)
    (path : JointPath ι) : Prop where
  isPath : ∃ ups top downs, path.linkPath = ⟨ups ++ top :: downs, ups.length⟩ ∧
    IsPath t base endLink ups top downs
  joints : path.joints = path.linkPath.links.filter fun i ↦ IsJoint (s i) ∧
    (connectsUpward t path.linkPath.links i ∨ connectsDownward t path.linkPath.links i)
  /-- The number of joints gone along from child to parent. -/
  numUpward : path.numUpwardJointConnections =
    (path.joints.filter (connectsUpward t path.linkPath.links)).length
  mayMove : ∀ j ∈ path.joints, MayMove t path.linkPath endLink s j
  /-- Every column of the Jacobian belongs to a joint that forward kinematics does not ignore. -/
  columns : ∀ localP k, k < (path.calcJacobian s localP).length →
    ∃ j, path.joints[k]? = some j ∧ MayMove t path.linkPath endLink s j

variable {t : LinkTree ι} {base endLink top : ι} {ups downs : List ι}

/-- A body of which only `j` can move: about or along the first axis. -/
noncomputable def onlyJoint (s : Store ι ℝ) (j i : ι) : Link ℝ :=
  { Link.blank with
    jointId := (s i).jointId
    jointType := (s i).jointType
    a := if i = j then ![1, 0, 0] else 0
    d := if i = j then ![1, 0, 0] else 0 }

theorem joint_onlyJoint (s : Store ι ℝ) (j i : ι) :
    jointRotation (onlyJoint s j i) = 1 ∧ jointOffset (onlyJoint s j i) = 0 := by
  have hzero : ∀ a : Vector3 ℝ, rodrigues a (0 : ℝ) = 1 := fun a ↦ by
    have hsin : CMath.sin (0 : ℝ) = 0 := Real.sin_zero
    have hcos : CMath.cos (0 : ℝ) = 1 := Real.cos_zero
    rw [rodrigues_eq, hsin, hcos, zero_smul, sub_self, zero_smul, add_zero, add_zero]
  rw [jointRotation, jointOffset]
  cases hty : (onlyJoint s j i).jointType with
  | rotationalJoint => exact ⟨hzero _, rfl⟩
  | slideJoint => exact ⟨rfl, by simp [onlyJoint, Link.blank]⟩
  | fixedJoint => exact ⟨rfl, rfl⟩
  | freeJoint => exact ⟨rfl, rfl⟩

/-- A half turn about the first axis. -/
theorem rodrigues_pi :
    rodrigues (![1, 0, 0] : Vector3 ℝ) Real.pi = !![1, 0, 0; 0, -1, 0; 0, 0, -1] := by
  have hsin : CMath.sin Real.pi = 0 := Real.sin_pi
  have hcos : CMath.cos Real.pi = -1 := Real.cos_pi
  ext i k
  fin_cases i <;> fin_cases k <;> simp [rodrigues, calcRodrigues, hsin, hcos]

/-- A joint with `base` and `endLink` on different sides may move the end. -/
theorem IsPath.mayMove (h : IsPath t base endLink ups top downs) (s : Store ι ℝ) {j : ι}
    (hj : IsJoint (s j)) (hside : ¬(endLink ∈ t.below j ↔ base ∈ t.below j)) :
    MayMove t ⟨ups ++ top :: downs, ups.length⟩ endLink s j := by
  have hend : endLink ∈ ups ++ top :: downs :=
    List.mem_append_right _ (List.mem_of_getLast? h.last)
  have hrot : ∀ i ∈ t.links,
      (jointRotation (onlyJoint s j i))ᵀ * jointRotation (onlyJoint s j i) = 1 := fun i _ ↦ by
    rw [(joint_onlyJoint s j i).1, transpose_one, one_mul]
  have hmoved : (jointRotation { onlyJoint s j j with q := Real.pi })ᵀ *
        jointRotation { onlyJoint s j j with q := Real.pi } = 1 ∧
      ¬(jointRotation { onlyJoint s j j with q := Real.pi } = 1 ∧
        jointOffset { onlyJoint s j j with q := Real.pi } = 0) := by
    rcases hj.2 with hty | hty
    · have hR : jointRotation { onlyJoint s j j with q := Real.pi } =
          !![1, 0, 0; 0, -1, 0; 0, 0, -1] := by
        rw [jointRotation, ← rodrigues_pi]
        simp [onlyJoint, hty]
      rw [hR]
      refine ⟨?_, fun hone ↦ ?_⟩
      · ext i k
        fin_cases i <;> fin_cases k <;> simp [Matrix.mul_apply, Fin.sum_univ_three]
      · have h11 := congrFun (congrFun hone.1 1) 1
        norm_num at h11
    · have hR : jointRotation { onlyJoint s j j with q := Real.pi } = 1 := by
        simp [jointRotation, onlyJoint, hty]
      have ho : jointOffset { onlyJoint s j j with q := Real.pi } = Real.pi • ![1, 0, 0] := by
        simp [jointOffset, onlyJoint, hty, Link.blank]
      rw [hR, ho, transpose_one, one_mul]
      refine ⟨rfl, fun hzero ↦ ?_⟩
      have h0 := congrFun hzero.2 0
      simp [Real.pi_ne_zero] at h0
  refine ⟨onlyJoint s j, Real.pi, fun i ↦ ⟨rfl, rfl⟩, fun heq ↦ hside ?_⟩
  refine (h.pose_setJointValue_iff hrot ?_ hmoved.1 ?_ hend).1 heq
  · show (1 : Matrix33 ℝ)ᵀ * 1 = 1
    rw [transpose_one, one_mul]
  · rw [(joint_onlyJoint s j j).1, (joint_onlyJoint s j j).2]
    exact hmoved.2

/-- The joints of a path without those of its turning link. -/
theorem IsPath.filter_connects (h : IsPath t base endLink ups top downs) (s : Store ι ℝ) :
    ((ups ++ top :: downs).filter fun i ↦ IsJoint (s i) ∧
        (connectsUpward t (ups ++ top :: downs) i ∨
          connectsDownward t (ups ++ top :: downs) i)) =
      (ups ++ downs).filter fun i ↦ IsJoint (s i) := by
  have hups : ∀ i ∈ ups, (IsJoint (s i) ∧ (connectsUpward t (ups ++ top :: downs) i ∨
      connectsDownward t (ups ++ top :: downs) i)) ↔ IsJoint (s i) := fun i hi ↦
    and_iff_left (.inl (h.connectsUpward_of_mem hi))
  have hdowns : ∀ i ∈ downs, (IsJoint (s i) ∧ (connectsUpward t (ups ++ top :: downs) i ∨
      connectsDownward t (ups ++ top :: downs) i)) ↔ IsJoint (s i) := fun i hi ↦
    and_iff_left (.inr (h.connectsDownward_of_mem hi))
  have htop : ¬(IsJoint (s top) ∧ (connectsUpward t (ups ++ top :: downs) top ∨
      connectsDownward t (ups ++ top :: downs) top)) := fun hc ↦
    hc.2.elim h.not_connects_top.1 h.not_connects_top.2
  rw [List.filter_append, List.filter_append, List.filter_cons, if_neg (by simpa using htop)]
  refine congrArg₂ _ (List.filter_congr fun i hi ↦ ?_) (List.filter_congr fun i hi ↦ ?_)
  · exact decide_eq_decide.2 (hups i hi)
  · exact decide_eq_decide.2 (hdowns i hi)

/-- The joints gone along from child to parent are those of the upward part. -/
theorem IsPath.filter_connectsUpward (h : IsPath t base endLink ups top downs) (s : Store ι ℝ)
    {mid : List ι} (hmid : mid ⊆ [top]) :
    (((ups ++ (mid ++ downs)).filter fun i ↦ IsJoint (s i)).filter
        (connectsUpward t (ups ++ top :: downs))) = ups.filter fun i ↦ IsJoint (s i) := by
  have hups : (ups.filter fun i ↦ IsJoint (s i)).filter
      (connectsUpward t (ups ++ top :: downs)) = ups.filter fun i ↦ IsJoint (s i) :=
    List.filter_eq_self.2 fun i hi ↦ h.connectsUpward_of_mem (List.mem_of_mem_filter hi)
  have hrest : ((mid ++ downs).filter fun i ↦ IsJoint (s i)).filter
      (connectsUpward t (ups ++ top :: downs)) = [] := by
    refine List.filter_eq_nil_iff.2 fun i hi ↦ ?_
    rcases List.mem_append.1 (List.mem_of_mem_filter hi) with hi | hi
    · rw [List.mem_singleton.1 (hmid hi)]
      exact h.not_connects_top.1
    · exact h.not_connectsUpward_of_mem hi
  rw [List.filter_append, List.filter_append, hups, hrest, List.append_nil]

/-- The links of a path but the turning one have its ends on different sides. -/
theorem IsPath.apart (h : IsPath t base endLink ups top downs) {j : ι} (hj : j ∈ ups ++ downs) :
    ¬(endLink ∈ t.below j ↔ base ∈ t.below j) := by
  rcases List.mem_append.1 hj with hj | hj
  · have hbase : base ∈ t.below j := h.base_mem_below (List.mem_append_left _ hj)
    exact fun hiff ↦ h.notMem j hj (hiff.2 hbase)
  · have hend : endLink ∈ t.below j :=
      h.descends.last_mem_below h.last (List.mem_cons_of_mem _ hj)
    exact fun hiff ↦ h.base_notMem hj (hiff.1 hend)

/-- The extracted joints are the moving ones unless a turning link inside the path has a joint. -/
theorem IsPath.holdsMovingJoints_iff (h : IsPath t base endLink ups top downs) (s : Store ι ℝ)
    {path : JointPath ι} (hpath : path.linkPath = ⟨ups ++ top :: downs, ups.length⟩) :
    HoldsMovingJoints t s base endLink (path.extractJoints s) ↔
      ups = [] ∨ downs = [] ∨ ¬IsJoint (s top) := by
  rw [JointPath.extractJoints_eq s path hpath]
  set mid : List ι := if ups = [] ∨ downs = [] then [] else [top] with hmid
  have hsub : mid ⊆ [top] := by
    rw [hmid]
    split_ifs <;> simp
  have hjoints : (((ups ++ (mid ++ downs)).filter fun i ↦ IsJoint (s i)) =
      (ups ++ downs).filter fun i ↦ IsJoint (s i)) ↔ ups = [] ∨ downs = [] ∨ ¬IsJoint (s top) := by
    rw [List.filter_append, List.filter_append, List.filter_append, List.append_cancel_left_eq,
      List.append_left_eq_self, hmid]
    split_ifs with hends
    · exact iff_of_true rfl (hends.imp_right .inl)
    · rw [← or_assoc, or_iff_right hends]
      simp [List.filter_cons]
  constructor
  · intro hhold
    refine hjoints.1 (hhold.joints.trans ?_)
    rw [hpath]
    exact h.filter_connects s
  · intro hcond
    have hmove : ∀ j ∈ (ups ++ (mid ++ downs)).filter fun i ↦ IsJoint (s i),
        MayMove t ⟨ups ++ top :: downs, ups.length⟩ endLink s j := by
      intro j hj
      rw [hjoints.2 hcond] at hj
      obtain ⟨hj, hjoint⟩ := List.mem_filter.1 hj
      exact h.mayMove s (by simpa using hjoint) (h.apart hj)
    refine ⟨⟨ups, top, downs, hpath, h⟩, ?_, ?_, ?_, ?_⟩
    · rw [hpath]
      exact (hjoints.2 hcond).trans (h.filter_connects s).symm
    · rw [hpath]
      exact (congrArg List.length (h.filter_connectsUpward s hsub)).symm
    · rw [hpath]
      exact hmove
    · intro localP k hk
      have hkj := hk.trans_le (JointPath.length_calcJacobian_le s _ localP)
      refine ⟨_, List.getElem?_eq_getElem hkj, ?_⟩
      rw [hpath]
      exact hmove _ (List.getElem_mem hkj)

theorem IsPath.top_ne (h : IsPath t base endLink ups top downs) :
    (top ≠ base ↔ ups ≠ []) ∧ (top ≠ endLink ↔ downs ≠ []) := by
  have hnd := h.nodup
  have hhead := h.head
  have hlast := h.last
  constructor
  · cases ups with
    | nil => simpa using hhead
    | cons u l =>
      obtain rfl : u = base := by simpa using hhead
      refine iff_of_true ?_ (List.cons_ne_nil u l)
      rintro rfl
      simp at hnd
  · rcases List.eq_nil_or_concat downs with rfl | ⟨l, e, rfl⟩
    · simpa using hlast
    · obtain rfl : e = endLink := by
        rw [List.concat_eq_append, ← List.cons_append, List.getLast?_concat] at hlast
        exact Option.some_inj.1 hlast
      refine iff_of_true ?_ (by simp)
      rintro rfl
      simp [List.nodup_append] at hnd

/-- The turning link of a path is the lowest link above both ends. -/
theorem IsPath.turning_iff (h : IsPath t base endLink ups top downs) (hbase : base ∈ t.links)
    (s : Store ι ℝ) :
    ups = [] ∨ downs = [] ∨ ¬IsJoint (s top) ↔
      ∀ top, IsMeet t base endLink top → top ≠ base → top ≠ endLink → ¬IsJoint (s top) := by
  constructor
  · intro hcond top' hmeet htopBase htopEnd
    obtain rfl : top = top' := h.isMeet.eq hbase hmeet
    exact (hcond.resolve_left (h.top_ne.1.1 htopBase)).resolve_left (h.top_ne.2.1 htopEnd)
  · intro hcond
    by_contra! hturn
    obtain ⟨hups, hdowns, htop⟩ := hturn
    exact hcond top h.isMeet (h.top_ne.1.2 hups) (h.top_ne.2.2 hdowns) htop

/-- **`find` lists the moving joints exactly when the path does not turn at a joint**: when the
lowest link above both ends, if it is neither of them, has no joint. -/
theorem find_holdsMovingJoints_iff (t : LinkTree ι) (s : Store ι ℝ) (path : JointPath ι)
    {base endLink : ι} (hbase : base ∈ t.links) (hend : endLink ∈ t.links) :
    ((path.find t s base endLink).1 = true →
        HoldsMovingJoints t s base endLink (path.find t s base endLink).2) ↔
      ∀ top, IsMeet t base endLink top → top ≠ base → top ≠ endLink → ¬IsJoint (s top) := by
  obtain ⟨ups, top, downs, hfind, h⟩ := LinkPath.exists_find hbase hend
  set path' : JointPath ι := { path with linkPath := ⟨ups ++ top :: downs, ups.length⟩ } with hp
  have heq : path.find t s base endLink =
      (!(path'.extractJoints s).joints.isEmpty, path'.extractJoints s) := by
    rw [JointPath.find, hfind, hp]
    rfl
  rw [heq, h.holdsMovingJoints_iff s rfl, ← h.turning_iff hbase s]
  refine ⟨fun hsuccess ↦ ?_, fun hcond _ ↦ hcond⟩
  -- a joint at the turning link is listed, so that the search succeeds there
  by_contra! hturn
  obtain ⟨hups, hdowns, hjoint⟩ := hturn
  have hfound : (!(path'.extractJoints s).joints.isEmpty) = true := by
    rw [JointPath.extractJoints_eq s path' rfl]
    simp [hups, hdowns, hjoint]
  rcases hsuccess hfound with h' | h' | h'
  · exact hups h'
  · exact hdowns h'
  · exact h' hjoint

/-- A joint that carries two others: the path between those turns at it. -/
def forkTree : LinkTree (Fin 4) :=
  ⟨0, .link 1 (.link 2 .null (.link 3 .null .null)) .null, by decide⟩

/-- A fixed root and three rotational joints. -/
noncomputable def fork (i : Fin 4) : Link ℝ :=
  { Link.blank with
    jointId := (i : ℤ) - 1
    jointType := if i = 0 then .fixedJoint else .rotationalJoint }

theorem find_holdsMovingJoints_iff_fork :
    ((JointPath.find forkTree fork ⟨⟨[], 0⟩, [], 0⟩ 1 3).1 = true →
        HoldsMovingJoints forkTree fork 1 3 (JointPath.find forkTree fork ⟨⟨[], 0⟩, [], 0⟩ 1 3).2) ↔
      ∀ top, IsMeet forkTree 1 3 top → top ≠ 1 → top ≠ 3 → ¬IsJoint (fork top) :=
  find_holdsMovingJoints_iff forkTree fork ⟨⟨[], 0⟩, [], 0⟩ (by decide) (by decide)

/-- From link 2 to link 3, the joint of link 1 is listed as well. -/
theorem not_holdsMovingJoints_fork :
    ¬((JointPath.find forkTree fork ⟨⟨[], 0⟩, [], 0⟩ 2 3).1 = true →
      HoldsMovingJoints forkTree fork 2 3
        (JointPath.find forkTree fork ⟨⟨[], 0⟩, [], 0⟩ 2 3).2) := by
  intro h
  have hjoints := (h (by decide +kernel)).joints
  revert hjoints
  decide +kernel

end Find

end OpenHRP
