import OpenHRP.Kinematics.JointPathSearch
import OpenHRP.Kinematics.PathPose
import OpenHRP.Kinematics.RotationLog

/-!
# Inverse kinematics of a joint path

`JointPath::calcInverseKinematics` moves the joints of a path by a fraction of what a linear solver
proposes, until the end link is close enough to its target, or, in best-effort mode, until the error
stands still. What the solvers return is not known: it may differ from turn to turn.

Whatever they return, the call is all or nothing (`calcInverseKinematics_all_or_nothing`). The
joints stay within their limits if and only if each range is at least as wide as the margin by which
a joint is pulled back inside (`calcInverseKinematics_withinLimits_iff`): in a narrower range, a
joint that has passed one limit is put behind the other.
-/

open Matrix

namespace OpenHRP

variable {ι K : Type*}

/-! ### The program -/

/-- The limits of joint values. -/
structure JointLimits (ι K : Type*) where
  ulimit : ι → K
  llimit : ι → K

/-- The members of a `JointPath` that `calcInverseKinematics` obeys. -/
structure IKSettings (K : Type*) where
  maxIKErrorSqr : K
  isBestEffortIKMode : Bool

/-- What `solveLinearEquationLU` and `solveLinearEquationSVD` return in each turn, for the Jacobian
and the right-hand side given: one number for each joint. -/
structure IKSolvers (K : Type*) where
  solveLinearEquationLU : ℕ → List (Vector3 K × Vector3 K) → Vector3 K × Vector3 K → ℕ → K
  solveLinearEquationSVD : ℕ → List (Vector3 K × Vector3 K) → Vector3 K × Vector3 K → ℕ → K

namespace JointPath

section Program

variable [Field K] [LinearOrder K] [DecidableEq ι]

/-- A joint value within the limits; one that has passed a limit is put inside by the margin. -/
def limitJointValue (llimit ulimit q : K) : K :=
  if ulimit < q then ulimit - 1 / 20
  else if q < llimit then llimit + 1 / 20
  else q

/-- The loop that moves the joints. -/
def moveJoints (limits : JointLimits ι K) (joints : List ι) (dq : ℕ → K) (s : Store ι K) :
    Store ι K :=
  joints.zipIdx.foldl (fun s joint ↦ setJointValue s joint.1
    (limitJointValue (limits.llimit joint.1) (limits.ulimit joint.1)
      ((s joint.1).q + 9 / 10 * dq joint.2))) s

/-- The loop that puts the joint values back. -/
def restoreJoints (joints : List ι) (qorg : ι → K) (s : Store ι K) : Store ι K :=
  joints.foldl (fun s joint ↦ setJointValue s joint (qorg joint)) s

variable [CMath K] [CAngle K]

/-- `dp` and `omega`: what is missing to the target. -/
def ikError (target : Link K) (end_p : Vector3 K) (end_R : Matrix33 K) : Vector3 K × Vector3 K :=
  (end_p - target.p, target.R *ᵥ omegaFromRot (target.Rᵀ * end_R))

/-- `dp.dot(dp) + omega.dot(omega)`. -/
def ikErrorSqr (target : Link K) (end_p : Vector3 K) (end_R : Matrix33 K) : K :=
  let v := ikError target end_p end_R
  v.1 ⬝ᵥ v.1 + v.2 ⬝ᵥ v.2

variable (t : LinkTree ι) (path : JointPath ι) (settings : IKSettings K)
  (limits : JointLimits ι K) (solvers : IKSolvers K) (target : ι) (end_p : Vector3 K)
  (end_R : Matrix33 K)

/-- Whether a turn finds the error small enough, or, in best-effort mode, close enough to `errsqr0`,
that of the turn before. -/
def ikConverged (errsqr0 errsqr : K) : Bool :=
  if settings.isBestEffortIKMode then |errsqr - errsqr0| < settings.maxIKErrorSqr
  else errsqr < settings.maxIKErrorSqr

/-- The rest of a turn that has not converged. -/
def ikStep (turn : ℕ) (s : Store ι K) : Store ι K :=
  let J := path.calcJacobian s 0
  let v := ikError (s target) end_p end_R
  let dq := if path.joints.length = 6 then solvers.solveLinearEquationLU turn J v
    else solvers.solveLinearEquationSVD turn J v
  calcForwardKinematics t path.linkPath false false (moveJoints limits path.joints dq s)

/-- The loop of `calcInverseKinematics`, with the number of turns left, the number of the turn and
the error of the turn before: whether it has converged, and the links it leaves. -/
def ikLoop : ℕ → ℕ → K → Store ι K → Bool × Store ι K
  | 0, _, _, s => (false, s)
  | left + 1, turn, errsqr0, s =>
    let errsqr := ikErrorSqr (s target) end_p end_R
    if ikConverged settings errsqr0 errsqr then (true, s)
    else ikLoop left (turn + 1) errsqr
      (ikStep t path limits solvers target end_p end_R turn s)

/-- `calcInverseKinematics` without joints: a path of one link can be put on the target. -/
def ikWithoutJoints (s : Store ι K) : Bool × Store ι K :=
  match path.linkPath.links.head?, path.linkPath.links.getLast? with
  | some baseLink, some endLink =>
    if baseLink = endLink then
      (true, Function.update s baseLink { s baseLink with p := end_p, R := end_R })
    else (false, s)
  | _, _ => (false, s)

/-- `JointPath::calcInverseKinematics(end_p, end_R)`: what it returns, and the links it leaves. A
path with joints has an end link. -/
def calcInverseKinematics (s : Store ι K) : Bool × Store ι K :=
  if path.joints = [] then ikWithoutJoints path end_p end_R s
  else
    path.linkPath.links.getLast?.elim (false, s) fun target ↦
      let r := ikLoop t path settings limits solvers target end_p end_R 50 0
        (settings.maxIKErrorSqr * 100) s
      if r.1 then r
      else (false, calcForwardKinematics t path.linkPath false false
        (restoreJoints path.joints (fun joint ↦ (s joint).q) r.2))

end Program

/-! ### Joint values and the rest -/

/-- A link without its joint value. -/
def dropValue [Zero K] (link : Link K) : Link K :=
  { link with q := 0 }

section Values

variable [Field K] [DecidableEq ι] {t : LinkTree ι} {s : Store ι K}

theorem dropValue_setJointValue (s : Store ι K) (i j : ι) (q : K) :
    dropValue (setJointValue s j q i) = dropValue (s i) := by
  rcases eq_or_ne i j with rfl | h
  · rw [setJointValue, Function.update_self]
    rfl
  · rw [setJointValue_of_ne s h]

/-- A loop that sets joint values sets nothing else. -/
theorem dropValue_foldl {α : Type*} (joint : α → ι) (value : Store ι K → α → K) (l : List α)
    (s : Store ι K) (i : ι) :
    dropValue (l.foldl (fun s x ↦ setJointValue s (joint x) (value s x)) s i) =
      dropValue (s i) := by
  induction l generalizing s with
  | nil => rfl
  | cons x l ih => rw [List.foldl_cons, ih, dropValue_setJointValue]

section

omit [Field K]

/-- A loop that sets joint values leaves links alone that are not in its list. -/
theorem foldl_setJointValue_of_notMem {α : Type*} (joint : α → ι) (value : Store ι K → α → K)
    {l : List α} {i : ι} (hi : i ∉ l.map joint) (s : Store ι K) :
    l.foldl (fun s x ↦ setJointValue s (joint x) (value s x)) s i = s i := by
  induction l generalizing s with
  | nil => rfl
  | cons x l ih =>
    obtain ⟨hne, hi⟩ := not_or.1 fun h ↦ hi (List.mem_cons.2 h)
    rw [List.foldl_cons, ih hi, setJointValue_of_ne s hne]

theorem q_restoreJoints (joints : List ι) (qorg : ι → K) (s : Store ι K) (i : ι) :
    (restoreJoints joints qorg s i).q = if i ∈ joints then qorg i else (s i).q := by
  induction joints generalizing s with
  | nil => rfl
  | cons j joints ih =>
    rw [restoreJoints, List.foldl_cons, ← restoreJoints, ih]
    rcases eq_or_ne i j with rfl | hij
    · rw [if_pos List.mem_cons_self, setJointValue, Function.update_self]
      exact ite_self _
    · rw [setJointValue_of_ne s hij]
      simp [hij]

end

variable {link link' : Link K}

omit [DecidableEq ι] in
theorem pose_eq_of_dropValue (h : dropValue link = dropValue link') :
    pose link = pose link' :=
  (congrArg pose h :)

theorem constants_eq_of_dropValue
    (h : constants (dropValue link) = constants (dropValue link')) (hq : link.q = link'.q) :
    constants link = constants link' := by
  have hsplit (l : Link K) : constants l = { constants (dropValue l) with q := l.q } := rfl
  rw [hsplit, hsplit link', h, hq]

end Values

/-! ### What holds in every turn -/

section Turns

variable [Field K] [LinearOrder K] [CMath K] [CAngle K] [DecidableEq ι] {t : LinkTree ι}
  {path : JointPath ι} {settings : IKSettings K} {limits : JointLimits ι K}
  {solvers : IKSolvers K} {base target : ι} {ups downs : List ι} {end_p : Vector3 K}
  {end_R : Matrix33 K} {s s' : Store ι K}

/-- The joint path a search leaves: no links, or links that forward kinematics can run along, and
joints among them. -/
structure Spans (t : LinkTree ι) (path : JointPath ι) : Prop where
  traverse : path.linkPath.links = [] ∨
    ∃ base ups downs, IsTraverse t base ups downs path.linkPath
  onLinkPath : path.OnLinkPath

omit [Field K] [LinearOrder K] [CMath K] [CAngle K] in
/-- Every search that does not meet the joints of an earlier one leaves such a path. -/
theorem spans_find {endLink : ι} (hbase : base ∈ t.links)
    (h : endLink ∈ t.links ∨ path.joints = []) : Spans t (find t s path base endLink).2 := by
  by_cases hend : endLink ∈ t.links
  · exact ⟨.inr ⟨base, exists_isTraverse_find hbase hend path⟩, onLinkPath_find hbase hend path⟩
  · rw [find_of_notMem hbase hend]
    refine ⟨.inl rfl, ?_⟩
    show path.joints ⊆ []
    rw [h.resolve_left hend]
    exact List.nil_subset _

/-- The links `s'` differ from the links `s` in the values of the joints only, and in the poses that
follow from them. -/
structure Moved (t : LinkTree ι) (path : JointPath ι) (base : ι) (s s' : Store ι K) : Prop where
  base : pose (s' base) = pose (s base)
  q_eq : ∀ i ∉ path.joints, (s' i).q = (s i).q
  others : ∀ i, constants (dropValue (s' i)) = constants (dropValue (s i))
  agrees : AgreesWithFK t path.linkPath s'

omit [LinearOrder K] [CAngle K] in
theorem q_calcForwardKinematics (htr : IsTraverse t base ups downs path.linkPath) (s : Store ι K)
    (i : ι) : (calcForwardKinematics t path.linkPath false false s i).q = (s i).q :=
  (congrArg Link.q (constants_calcForwardKinematics htr false false s i) :)

theorem Moved.ikStep (htr : IsTraverse t base ups downs path.linkPath)
    (h : Moved t path base s s') (turn : ℕ) :
    Moved t path base s (ikStep t path limits solvers target end_p end_R turn s') := by
  rw [JointPath.ikStep]
  set dq := if path.joints.length = 6 then solvers.solveLinearEquationLU turn
    (path.calcJacobian s' 0) (ikError (s' target) end_p end_R)
    else solvers.solveLinearEquationSVD turn (path.calcJacobian s' 0)
      (ikError (s' target) end_p end_R)
  have hdrop (i : ι) : dropValue (moveJoints limits path.joints dq s' i) = dropValue (s' i) :=
    dropValue_foldl _ _ _ s' i
  have hconst (i : ι) := constants_calcForwardKinematics htr false false
    (moveJoints limits path.joints dq s') i
  refine ⟨?_, fun i hi ↦ ?_, fun i ↦ ?_, agrees_calcForwardKinematics htr _⟩
  · rw [pose_base htr, ← h.base]
    exact pose_eq_of_dropValue (hdrop base)
  · rw [q_calcForwardKinematics htr, ← h.q_eq i hi]
    refine congrArg Link.q (foldl_setJointValue_of_notMem _ _ ?_ s')
    rwa [List.zipIdx_map_fst]
  · rw [← h.others, ← hdrop]
    exact (congrArg (fun link ↦ constants (dropValue link)) (hconst i) :)

theorem Moved.ikLoop (htr : IsTraverse t base ups downs path.linkPath)
    (h : Moved t path base s s') (left turn : ℕ) (errsqr0 : K) :
    Moved t path base s
      (ikLoop t path settings limits solvers target end_p end_R left turn errsqr0 s').2 := by
  induction left generalizing turn errsqr0 s' with
  | zero => exact h
  | succ left ih =>
    rw [JointPath.ikLoop]
    split
    · exact h
    · exact ih (h.ikStep htr turn) _ _

/-- The loop returns with a small error. -/
theorem ikErrorSqr_ikLoop (hmode : settings.isBestEffortIKMode = false) (left turn : ℕ)
    (errsqr0 : K) (s : Store ι K)
    (hconverged : (ikLoop t path settings limits solvers target end_p end_R left turn errsqr0
      s).1 = true) :
    ikErrorSqr ((ikLoop t path settings limits solvers target end_p end_R left turn errsqr0
      s).2 target) end_p end_R < settings.maxIKErrorSqr := by
  induction left generalizing turn errsqr0 s with
  | zero => cases hconverged
  | succ left ih =>
    rw [JointPath.ikLoop] at hconverged ⊢
    split at hconverged
    · next hsmall =>
      rw [if_pos hsmall]
      simpa [ikConverged, hmode] using hsmall
    · next hlarge =>
      rw [if_neg hlarge]
      exact ih _ _ _ hconverged

omit [Field K] [LinearOrder K] [CMath K] [CAngle K] in
theorem ikWithoutJoints_of_false (h : (ikWithoutJoints path end_p end_R s).1 = false) :
    (ikWithoutJoints path end_p end_R s).2 = s := by
  rw [ikWithoutJoints] at h ⊢
  split
  · next baseLink endLink hbase hend =>
    rw [hbase, hend] at h
    dsimp only at h
    split_ifs at h ⊢
    rfl
  · rfl

omit [LinearOrder K] [CAngle K] in
/-- Joint values put back, and forward kinematics, leave the links as they were. -/
theorem Moved.restore (htr : IsTraverse t base ups downs path.linkPath)
    (hagrees : AgreesWithFK t path.linkPath s) (h : Moved t path base s s') :
    (∀ i, (calcForwardKinematics t path.linkPath false false
        (restoreJoints path.joints (fun joint ↦ (s joint).q) s') i).q = (s i).q) ∧
      ∀ i ∈ path.linkPath.links, pose (calcForwardKinematics t path.linkPath false false
        (restoreJoints path.joints (fun joint ↦ (s joint).q) s') i) = pose (s i) := by
  set restored := restoreJoints path.joints (fun joint ↦ (s joint).q) s' with hrestored
  have hq (i : ι) : (restored i).q = (s i).q := by
    rw [hrestored, q_restoreJoints]
    split
    · rfl
    · next hi => exact h.q_eq i hi
  have hdrop (i : ι) : dropValue (restored i) = dropValue (s' i) :=
    dropValue_foldl _ _ _ s' i
  have hconst (i : ι) : constants (restored i) = constants (s i) := by
    refine constants_eq_of_dropValue ?_ (hq i)
    rw [hdrop, h.others]
  have hbase : pose (restored base) = pose (s base) := by
    rw [← h.base]
    exact pose_eq_of_dropValue (hdrop base)
  refine ⟨fun i ↦ ?_, fun i hi ↦ ?_⟩
  · rw [q_calcForwardKinematics htr, hq]
  · rw [pose_calcForwardKinematics_congr htr false false hbase hconst i hi, hagrees i hi]

/-- **Inverse kinematics is all or nothing**, whatever the solvers return: a call that fails leaves
every joint value and every pose of the path as it was. A call that succeeds, but not in best-effort
mode, leaves poses that agree with the joint values, and an error below the limit. -/
theorem calcInverseKinematics_all_or_nothing (hpath : Spans t path)
    (hagrees : AgreesWithFK t path.linkPath s) (settings : IKSettings K)
    (limits : JointLimits ι K) (solvers : IKSolvers K) (end_p : Vector3 K) (end_R : Matrix33 K) :
    let r := calcInverseKinematics t path settings limits solvers end_p end_R s
    (r.1 = false →
      (∀ i, (r.2 i).q = (s i).q) ∧ ∀ i ∈ path.linkPath.links, pose (r.2 i) = pose (s i)) ∧
      (r.1 = true → settings.isBestEffortIKMode = false → path.joints ≠ [] →
        AgreesWithFK t path.linkPath r.2 ∧
          ∃ target, path.linkPath.links.getLast? = some target ∧
            ikErrorSqr (r.2 target) end_p end_R < settings.maxIKErrorSqr) := by
  intro r
  rcases eq_or_ne path.joints [] with hjoints | hjoints
  · have hr : r = ikWithoutJoints path end_p end_R s := if_pos hjoints
    refine ⟨fun h ↦ ?_, fun _ _ hne ↦ absurd hjoints hne⟩
    rw [hr] at h ⊢
    rw [ikWithoutJoints_of_false h]
    exact ⟨fun _ ↦ rfl, fun _ _ ↦ rfl⟩
  · obtain ⟨base, ups, downs, htr⟩ := hpath.traverse.resolve_left fun hnil ↦
      hjoints (List.subset_nil.1 (hnil ▸ hpath.onLinkPath))
    obtain ⟨target, htarget⟩ := hpath.onLinkPath.hasEndLink hjoints
    set loop := ikLoop t path settings limits solvers target end_p end_R 50 0
      (settings.maxIKErrorSqr * 100) s with hloop
    have hr : r = if loop.1 then loop
        else (false, calcForwardKinematics t path.linkPath false false
          (restoreJoints path.joints (fun joint ↦ (s joint).q) loop.2)) := by
      show calcInverseKinematics _ _ _ _ _ _ _ _ = _
      rw [calcInverseKinematics, if_neg hjoints, htarget]
      rfl
    have hmoved : Moved t path base s loop.2 :=
      Moved.ikLoop htr ⟨rfl, fun _ _ ↦ rfl, fun _ ↦ rfl, hagrees⟩ 50 0 _
    rcases hconverged : loop.1 with _ | _
    · rw [hconverged, if_neg Bool.false_ne_true] at hr
      rw [hr]
      exact ⟨fun _ ↦ hmoved.restore htr hagrees, fun h ↦ absurd h Bool.false_ne_true⟩
    · rw [hconverged, if_pos rfl] at hr
      rw [hr]
      refine ⟨fun h ↦ absurd (hconverged.symm.trans h) Bool.true_eq_false.mp,
        fun _ hmode _ ↦ ⟨hmoved.agrees, target, htarget, ?_⟩⟩
      exact ikErrorSqr_ikLoop hmode 50 0 _ s hconverged

end Turns

/-! ### Joint limits -/

section Limits

variable [Field K] [LinearOrder K] [IsStrictOrderedRing K] [DecidableEq ι] {t : LinkTree ι}
  {path : JointPath ι} {limits : JointLimits ι K} {joints : List ι} {s : Store ι K}

/-- The joints are within their limits. -/
def WithinLimits (limits : JointLimits ι K) (joints : List ι) (s : Store ι K) : Prop :=
  ∀ j ∈ joints, limits.llimit j ≤ (s j).q ∧ (s j).q ≤ limits.ulimit j

omit [IsStrictOrderedRing K] in
theorem limitJointValue_of_mem {llimit ulimit q : K} (hl : llimit ≤ q) (hu : q ≤ ulimit) :
    limitJointValue llimit ulimit q = q := by
  rw [limitJointValue, if_neg (not_lt.2 hu), if_neg (not_lt.2 hl)]

/-- A range that is wide enough keeps a joint. -/
theorem limitJointValue_mem {llimit ulimit : K} (h : llimit + 1 / 20 ≤ ulimit) (q : K) :
    llimit ≤ limitJointValue llimit ulimit q ∧ limitJointValue llimit ulimit q ≤ ulimit := by
  rw [limitJointValue]
  split_ifs with hu hl
  · constructor <;> linarith
  · constructor <;> linarith
  · exact ⟨not_lt.1 hl, not_lt.1 hu⟩

theorem WithinLimits.moveJoints (hwide : ∀ j ∈ joints, limits.llimit j + 1 / 20 ≤ limits.ulimit j)
    (h : WithinLimits limits joints s) (dq : ℕ → K) :
    WithinLimits limits joints (moveJoints limits joints dq s) := by
  rw [JointPath.moveJoints]
  generalize joints.zipIdx = l
  induction l generalizing s with
  | nil => exact h
  | cons x l ih =>
    refine ih fun j hj ↦ ?_
    dsimp only
    rcases eq_or_ne j x.1 with rfl | hne
    · rw [setJointValue, Function.update_self]
      exact limitJointValue_mem (hwide _ hj) _
    · rw [setJointValue_of_ne s hne]
      exact h j hj

section

omit [Field K] [LinearOrder K] [IsStrictOrderedRing K]

theorem setJointValue_self (s : Store ι K) (j : ι) : setJointValue s j (s j).q = s :=
  Function.update_eq_self j s

theorem setJointValue_setJointValue (s : Store ι K) (j : ι) (q q' : K) :
    setJointValue (setJointValue s j q) j q' = setJointValue s j q' := by
  rw [setJointValue, setJointValue, Function.update_self, Function.update_idem, setJointValue]

end

omit [IsStrictOrderedRing K] in
/-- A joint that is pushed over its upper limit again and again is put at the margin below it, and
nothing else moves. -/
theorem foldl_push {j : ι} {dq : ℕ → K} {push : K} (l : List (ι × ℕ)) (s : Store ι K)
    (hpush : ∀ x ∈ l, x.1 = j → dq x.2 = push) (hrest : ∀ x ∈ l, x.1 ≠ j → dq x.2 = 0)
    (hwithin : ∀ x ∈ l, x.1 ≠ j →
      limits.llimit x.1 ≤ (s x.1).q ∧ (s x.1).q ≤ limits.ulimit x.1)
    (hover : limits.ulimit j < (s j).q + 9 / 10 * push)
    (hagain : limits.ulimit j < limits.ulimit j - 1 / 20 + 9 / 10 * push) :
    l.foldl (fun s joint ↦ setJointValue s joint.1
      (limitJointValue (limits.llimit joint.1) (limits.ulimit joint.1)
        ((s joint.1).q + 9 / 10 * dq joint.2))) s =
      if j ∈ l.map Prod.fst then setJointValue s j (limits.ulimit j - 1 / 20) else s := by
  induction l generalizing s with
  | nil => rfl
  | cons x l ih =>
    have hpush' := fun y hy ↦ hpush y (List.mem_cons_of_mem x hy)
    have hrest' := fun y hy ↦ hrest y (List.mem_cons_of_mem x hy)
    have hwithin' := fun y hy ↦ hwithin y (List.mem_cons_of_mem x hy)
    rw [List.foldl_cons]
    rcases eq_or_ne x.1 j with hj | hj
    · have hrest_within : ∀ y ∈ l, y.1 ≠ j →
          limits.llimit y.1 ≤ (setJointValue s j (limits.ulimit j - 1 / 20) y.1).q ∧
            (setJointValue s j (limits.ulimit j - 1 / 20) y.1).q ≤ limits.ulimit y.1 := by
        intro y hy hne
        rw [setJointValue_of_ne s hne]
        exact hwithin' y hy hne
      have hvalue : (setJointValue s j (limits.ulimit j - 1 / 20) j).q =
          limits.ulimit j - 1 / 20 := by
        rw [setJointValue, Function.update_self]
      rw [hpush x List.mem_cons_self hj, hj, limitJointValue, if_pos hover,
        ih _ hpush' hrest' hrest_within (by rwa [hvalue]), List.map_cons, hj,
        if_pos List.mem_cons_self, setJointValue_setJointValue, ite_self]
    · obtain ⟨hl, hu⟩ := hwithin x List.mem_cons_self hj
      rw [hrest x List.mem_cons_self hj, mul_zero, add_zero, limitJointValue_of_mem hl hu,
        setJointValue_self, ih s hpush' hrest' hwithin' hover]
      simp only [List.map_cons, List.mem_cons, hj.symm, false_or]

variable [CMath K] [CAngle K] {settings : IKSettings K} {solvers : IKSolvers K}
  {base target : ι} {ups downs : List ι} {end_p : Vector3 K} {end_R : Matrix33 K}

theorem ikErrorSqr_nonneg (link : Link K) (end_p : Vector3 K) (end_R : Matrix33 K) :
    0 ≤ ikErrorSqr link end_p end_R := by
  have hsqr (v : Vector3 K) : 0 ≤ v ⬝ᵥ v := Finset.sum_nonneg fun i _ ↦ mul_self_nonneg (v i)
  exact add_nonneg (hsqr _) (hsqr _)

omit [IsStrictOrderedRing K] [CAngle K] in
theorem WithinLimits.calcForwardKinematics (htr : IsTraverse t base ups downs path.linkPath)
    (h : WithinLimits limits joints s) :
    WithinLimits limits joints (calcForwardKinematics t path.linkPath false false s) := by
  intro j hj
  rw [q_calcForwardKinematics htr]
  exact h j hj

theorem WithinLimits.ikLoop (htr : IsTraverse t base ups downs path.linkPath)
    (hwide : ∀ j ∈ path.joints, limits.llimit j + 1 / 20 ≤ limits.ulimit j)
    (h : WithinLimits limits path.joints s) (left turn : ℕ) (errsqr0 : K) :
    WithinLimits limits path.joints
      (ikLoop t path settings limits solvers target end_p end_R left turn errsqr0 s).2 := by
  induction left generalizing turn errsqr0 s with
  | zero => exact h
  | succ left ih =>
    rw [JointPath.ikLoop]
    split
    · exact h
    · exact ih ((h.moveJoints hwide _).calcForwardKinematics htr) _ _

omit [IsStrictOrderedRing K] [DecidableEq ι] in
theorem ikErrorSqr_congr {link link' : Link K} (h : pose link = pose link') :
    ikErrorSqr link end_p end_R = ikErrorSqr link' end_p end_R := by
  have hp : link.p = link'.p := (congrArg Prod.fst h :)
  have hR : link.R = link'.R := (congrArg Prod.snd h :)
  rw [ikErrorSqr, ikErrorSqr, ikError, ikError, hp, hR]

/-- No error is smaller than a limit that is not positive. -/
theorem ikLoop_of_nonpos (hmax : settings.maxIKErrorSqr ≤ 0) (left turn : ℕ) (errsqr0 : K)
    (s : Store ι K) :
    (ikLoop t path settings limits solvers target end_p end_R left turn errsqr0 s).1 = false := by
  induction left generalizing turn errsqr0 s with
  | zero => rfl
  | succ left ih =>
    have hlarge (errsqr : K) (hnonneg : 0 ≤ errsqr) :
        ¬ikConverged settings errsqr0 errsqr = true := by
      rw [ikConverged]
      split
      · exact fun h ↦ not_lt.2 (hmax.trans (abs_nonneg _)) (of_decide_eq_true h)
      · exact fun h ↦ not_lt.2 (hmax.trans hnonneg) (of_decide_eq_true h)
    rw [JointPath.ikLoop, if_neg (hlarge _ (ikErrorSqr_nonneg _ _ _)), ih]

omit [IsStrictOrderedRing K] in
/-- The call of a path with joints is its loop. -/
theorem calcInverseKinematics_of_joints (hjoints : path.joints ≠ [])
    (htarget : path.linkPath.links.getLast? = some target) (s : Store ι K) :
    (calcInverseKinematics t path settings limits solvers end_p end_R s).1 =
        (ikLoop t path settings limits solvers target end_p end_R 50 0
          (settings.maxIKErrorSqr * 100) s).1 ∧
      ((ikLoop t path settings limits solvers target end_p end_R 50 0
        (settings.maxIKErrorSqr * 100) s).1 = true →
        calcInverseKinematics t path settings limits solvers end_p end_R s =
          ikLoop t path settings limits solvers target end_p end_R 50 0
            (settings.maxIKErrorSqr * 100) s) := by
  rw [calcInverseKinematics, if_neg hjoints, htarget, Option.elim_some]
  dsimp only
  split
  · exact ⟨rfl, fun _ ↦ rfl⟩
  · next h => exact ⟨(Bool.eq_false_of_not_eq_true h).symm, fun h' ↦ absurd h' h⟩

/-- Solvers that push one joint and no other. -/
def pushJoint (joints : List ι) (j : ι) (push : K) : IKSolvers K :=
  let dq := fun _ _ _ k ↦ if joints[k]? = some j then push else 0
  ⟨dq, dq⟩

omit [CMath K] [CAngle K] [IsStrictOrderedRing K] in
theorem moveJoints_push {j : ι} {push : K} (hj : j ∈ joints)
    (hwithin : ∀ i ∈ joints, i ≠ j → limits.llimit i ≤ (s i).q ∧ (s i).q ≤ limits.ulimit i)
    (hover : limits.ulimit j < (s j).q + 9 / 10 * push)
    (hagain : limits.ulimit j < limits.ulimit j - 1 / 20 + 9 / 10 * push) :
    moveJoints limits joints (fun k ↦ if joints[k]? = some j then push else 0) s =
      setJointValue s j (limits.ulimit j - 1 / 20) := by
  have hget {x : ι × ℕ} (hx : x ∈ joints.zipIdx) : joints[x.2]? = some x.1 :=
    List.mem_zipIdx_iff_getElem?.1 hx
  set dq : ℕ → K := fun k ↦ if joints[k]? = some j then push else 0 with hdq
  have hmoved : moveJoints limits joints dq s =
      if j ∈ joints.zipIdx.map Prod.fst then setJointValue s j (limits.ulimit j - 1 / 20) else s :=
    by
    refine foldl_push joints.zipIdx s (fun x hx hxj ↦ ?_) (fun x hx hxj ↦ ?_)
      (fun x hx ↦ hwithin x.1 (List.mem_of_getElem? (hget hx))) hover hagain
    · rw [hdq]
      exact if_pos (by rw [hget hx, hxj])
    · rw [hdq]
      refine if_neg fun h ↦ hxj ?_
      exact Option.some.inj ((hget hx).symm.trans h)
  rw [hmoved, List.zipIdx_map_fst, if_pos hj]

omit [IsStrictOrderedRing K] in
/-- A turn with solvers that push one joint over its upper limit. -/
theorem ikStep_push {j : ι} {push : K} (hj : j ∈ path.joints)
    (hwithin : ∀ i ∈ path.joints, i ≠ j → limits.llimit i ≤ (s i).q ∧ (s i).q ≤ limits.ulimit i)
    (hover : limits.ulimit j < (s j).q + 9 / 10 * push)
    (hagain : limits.ulimit j < limits.ulimit j - 1 / 20 + 9 / 10 * push) (turn : ℕ) :
    ikStep t path limits (pushJoint path.joints j push) target end_p end_R turn s =
      calcForwardKinematics t path.linkPath false false
        (setJointValue s j (limits.ulimit j - 1 / 20)) := by
  rw [ikStep]
  dsimp only [pushJoint]
  rw [ite_self, moveJoints_push hj hwithin hover hagain]

/-- Solvers that push a joint over its upper limit again and again leave it at the margin below that
limit, in best-effort mode and for a target far enough away. -/
theorem ikLoop_push (htr : IsTraverse t base ups downs path.linkPath) {j : ι} (hj : j ∈ path.joints)
    (hstart : WithinLimits limits path.joints s) (hmode : settings.isBestEffortIKMode = true)
    (hmax : 0 < settings.maxIKErrorSqr) (htarget : target ∈ path.linkPath.links)
    (hfar : 101 * settings.maxIKErrorSqr ≤ ikErrorSqr (s target) end_p end_R) :
    let r := ikLoop t path settings limits
      (pushJoint path.joints j (10 / 9 * (limits.ulimit j - (s j).q + 1))) target end_p end_R 50 0
      (settings.maxIKErrorSqr * 100) s
    r.1 = true ∧ (r.2 j).q = limits.ulimit j - 1 / 20 := by
  intro r
  set push := 10 / 9 * (limits.ulimit j - (s j).q + 1) with hpush
  set pulled := setJointValue s j (limits.ulimit j - 1 / 20) with hpulled
  set s₁ := calcForwardKinematics t path.linkPath false false pulled with hs₁
  have hu := (hstart j hj).2
  have hover : limits.ulimit j < (s j).q + 9 / 10 * push := by rw [hpush]; linarith
  have hagain : limits.ulimit j < limits.ulimit j - 1 / 20 + 9 / 10 * push := by
    rw [hpush]; linarith
  have hq (i : ι) : (s₁ i).q = (pulled i).q := q_calcForwardKinematics htr pulled i
  have hq_j : (s₁ j).q = limits.ulimit j - 1 / 20 := by
    rw [hq, hpulled, setJointValue, Function.update_self]
  have hq_ne {i : ι} (hne : i ≠ j) : (s₁ i).q = (s i).q := by
    rw [hq, hpulled, setJointValue_of_ne s hne]
  -- the first turn puts the joint at the margin, the second one leaves all poses as they are
  have hfirst : ikStep t path limits (pushJoint path.joints j push) target end_p end_R 0 s = s₁ :=
    ikStep_push hj (fun i hi _ ↦ hstart i hi) hover hagain 0
  have hsecond : ikStep t path limits (pushJoint path.joints j push) target end_p end_R 1 s₁ =
      calcForwardKinematics t path.linkPath false false s₁ := by
    rw [ikStep_push hj (fun i hi hne ↦ ?_) (by rwa [hq_j]) hagain, ← hq_j, setJointValue_self]
    rw [hq_ne hne]
    exact hstart i hi
  have hagrees : AgreesWithFK t path.linkPath s₁ := agrees_calcForwardKinematics htr pulled
  have hstill : ikErrorSqr (calcForwardKinematics t path.linkPath false false s₁ target)
      end_p end_R = ikErrorSqr (s₁ target) end_p end_R :=
    ikErrorSqr_congr (hagrees target htarget)
  have hturn : ¬ikConverged settings (settings.maxIKErrorSqr * 100)
      (ikErrorSqr (s target) end_p end_R) = true := by
    rw [ikConverged, if_pos hmode, decide_eq_true_eq, not_lt]
    exact le_trans (by linarith) (le_abs_self _)
  show (ikLoop _ _ _ _ _ _ _ _ 50 _ _ _).1 = true ∧ ((ikLoop _ _ _ _ _ _ _ _ 50 _ _ _).2 j).q = _
  rw [ikLoop, if_neg hturn, hfirst, ikLoop]
  split
  · exact ⟨rfl, hq_j⟩
  · have hconverged : ikConverged settings (ikErrorSqr (s₁ target) end_p end_R)
        (ikErrorSqr (calcForwardKinematics t path.linkPath false false s₁ target) end_p end_R) =
          true := by
      rw [ikConverged, if_pos hmode, hstill, sub_self, abs_zero]
      exact decide_eq_true hmax
    rw [hsecond, ikLoop, if_pos hconverged]
    exact ⟨rfl, (q_calcForwardKinematics htr s₁ j).trans hq_j⟩

/-- **When inverse kinematics respects joint limits**: for every target, in either mode and whatever
the solvers return, a call that succeeds leaves all joints within their limits, if and only if the
error limit lets no call of a path with joints succeed, or each range is as wide as the margin. -/
theorem calcInverseKinematics_withinLimits_iff (hpath : Spans t path) (limits : JointLimits ι K)
    (maxIKErrorSqr : K) (hstart : WithinLimits limits path.joints s) :
    (∀ (isBestEffortIKMode : Bool) (solvers : IKSolvers K) (end_p : Vector3 K)
        (end_R : Matrix33 K),
        let r := calcInverseKinematics t path ⟨maxIKErrorSqr, isBestEffortIKMode⟩ limits solvers
          end_p end_R s
        r.1 = true → WithinLimits limits path.joints r.2) ↔
      maxIKErrorSqr ≤ 0 ∨ ∀ j ∈ path.joints, limits.llimit j + 1 / 20 ≤ limits.ulimit j := by
  rcases eq_or_ne path.joints [] with hjoints | hjoints
  · have hnone (s : Store ι K) : WithinLimits limits path.joints s := fun j hj ↦
      absurd (hjoints ▸ hj) List.not_mem_nil
    exact ⟨fun _ ↦ .inr fun j hj ↦ absurd (hjoints ▸ hj) List.not_mem_nil,
      fun _ _ _ _ _ _ ↦ hnone _⟩
  obtain ⟨base, ups, downs, htr⟩ := hpath.traverse.resolve_left fun hnil ↦
    hjoints (List.subset_nil.1 (hnil ▸ hpath.onLinkPath))
  obtain ⟨target, htarget⟩ := hpath.onLinkPath.hasEndLink hjoints
  constructor
  · intro h
    by_contra! hnot
    obtain ⟨hmax, j, hj, hnarrow⟩ := hnot
    set end_p : Vector3 K := (s target).p + ![101 * maxIKErrorSqr + 1, 0, 0] with hend
    have hfar : 101 * maxIKErrorSqr ≤ ikErrorSqr (s target) end_p 1 := by
      have hrotation : 0 ≤ (ikError (s target) end_p 1).2 ⬝ᵥ (ikError (s target) end_p 1).2 :=
        Finset.sum_nonneg fun i _ ↦ mul_self_nonneg _
      have hposition : (ikError (s target) end_p 1).1 ⬝ᵥ (ikError (s target) end_p 1).1 =
          (101 * maxIKErrorSqr + 1) * (101 * maxIKErrorSqr + 1) := by
        rw [ikError, hend, add_sub_cancel_left]
        simp [dotProduct, Fin.sum_univ_three]
      have hsum : ikErrorSqr (s target) end_p 1 =
          (ikError (s target) end_p 1).1 ⬝ᵥ (ikError (s target) end_p 1).1 +
            (ikError (s target) end_p 1).2 ⬝ᵥ (ikError (s target) end_p 1).2 := rfl
      rw [hsum, hposition]
      nlinarith [mul_pos hmax hmax]
    have hmode : IKSettings.isBestEffortIKMode ⟨maxIKErrorSqr, true⟩ = true := rfl
    obtain ⟨hconverged, hq⟩ := ikLoop_push htr hj hstart hmode hmax (List.mem_of_getLast? htarget)
      hfar
    obtain ⟨hfirst, hloop⟩ := calcInverseKinematics_of_joints hjoints htarget s
    have hlow := (h true _ end_p 1 (hfirst.trans hconverged) j hj).1
    rw [hloop hconverged, hq] at hlow
    linarith
  · rintro (hmax | hwide) mode solvers end_p end_R r hr
    · obtain ⟨hfirst, -⟩ := calcInverseKinematics_of_joints hjoints htarget s
      rw [ikLoop_of_nonpos (show IKSettings.maxIKErrorSqr ⟨maxIKErrorSqr, mode⟩ ≤ 0 from hmax)]
        at hfirst
      exact absurd (hr.symm.trans hfirst) Bool.true_eq_false.mp
    · obtain ⟨hfirst, hloop⟩ := calcInverseKinematics_of_joints hjoints htarget s
      have hr_loop : r = ikLoop t path ⟨maxIKErrorSqr, mode⟩ limits solvers target end_p end_R 50 0
          (maxIKErrorSqr * 100) s := hloop (hfirst.symm.trans hr)
      rw [hr_loop]
      exact hstart.ikLoop htr hwide 50 0 _

end Limits

/-! ### A slide joint -/

/-- Rational stand-ins, for bodies that do not turn: they agree with the real functions for the
angle zero. -/
instance : CAngle ℚ :=
  ⟨fun _ ↦ 0, fun _ _ ↦ 0⟩

/-- Link 1 slides along the first axis. -/
def slideStore : Store (Fin 2) ℚ := fun i ↦
  if i = 1 then { Link.blank with jointId := 0, jointType := .slideJoint, d := ![1, 0, 0] }
  else Link.blank

/-- The joint path from link 0 to link 1. -/
def slidePath : JointPath (Fin 2) :=
  (find oneJointTree slideStore ⟨⟨[], 0⟩, [], 0⟩ 0 1).2

/-- The solution that misses the target by least: the Jacobian has the one column `(1, 0, 0)`. -/
def slideSolvers : IKSolvers ℚ :=
  ⟨fun _ _ v _ ↦ v.1 0, fun _ _ v _ ↦ v.1 0⟩

theorem spans_slide : Spans oneJointTree slidePath :=
  spans_find (by decide) (.inl (by decide))

theorem slide_agrees : AgreesWithFK oneJointTree slidePath.linkPath slideStore := by
  show ∀ i ∈ slidePath.linkPath.links, _
  decide +kernel

/-- Three turns reach a target. -/
theorem calcInverseKinematics_all_or_nothing_slide :
    let r := calcInverseKinematics oneJointTree slidePath ⟨1 / 1000000, false⟩
      ⟨fun _ ↦ 1, fun _ ↦ -1⟩ slideSolvers ![1 / 100, 0, 0] 1 slideStore
    r.1 = true ∧ (r.2 1).q = 99 / 10000 ∧ AgreesWithFK oneJointTree slidePath.linkPath r.2 :=
  have hconverged : (calcInverseKinematics oneJointTree slidePath ⟨1 / 1000000, false⟩
      ⟨fun _ ↦ 1, fun _ ↦ -1⟩ slideSolvers ![1 / 100, 0, 0] 1 slideStore).1 = true := by
    decide +kernel
  ⟨hconverged, by decide +kernel,
    ((calcInverseKinematics_all_or_nothing spans_slide slide_agrees ⟨1 / 1000000, false⟩
      ⟨fun _ ↦ 1, fun _ ↦ -1⟩ slideSolvers ![1 / 100, 0, 0] 1).2 hconverged rfl (by decide)).1⟩

/-- A joint that may move by a hundredth, pulled back by a twentieth from its upper limit, ends
below its lower one. -/
theorem calcInverseKinematics_belowLimit :
    Spans oneJointTree slidePath ∧
      WithinLimits ⟨fun _ ↦ 1 / 100, fun _ ↦ 0⟩ slidePath.joints slideStore ∧
      let r := calcInverseKinematics oneJointTree slidePath ⟨1 / 1000000, true⟩
        ⟨fun _ ↦ 1 / 100, fun _ ↦ 0⟩ slideSolvers ![1 / 20, 0, 0] 1 slideStore
      r.1 = true ∧ 1 ∈ slidePath.joints ∧ (r.2 1).q = -(1 / 25) ∧
        ¬WithinLimits ⟨fun _ ↦ 1 / 100, fun _ ↦ 0⟩ slidePath.joints r.2 := by
  refine ⟨spans_slide, ?_, by decide +kernel, by decide, by decide +kernel, fun h ↦ ?_⟩
  · show ∀ j ∈ slidePath.joints, _
    decide +kernel
  · exact absurd (h 1 (by decide)).1 (by decide +kernel)

/-- Some solvers and some target take that joint out of its range. -/
theorem calcInverseKinematics_withinLimits_iff_narrow :
    ¬∀ (isBestEffortIKMode : Bool) (solvers : IKSolvers ℚ) (end_p : Vector3 ℚ)
      (end_R : Matrix33 ℚ),
      let r := calcInverseKinematics oneJointTree slidePath ⟨1 / 1000000, isBestEffortIKMode⟩
        ⟨fun _ ↦ 1 / 100, fun _ ↦ 0⟩ solvers end_p end_R slideStore
      r.1 = true → WithinLimits ⟨fun _ ↦ 1 / 100, fun _ ↦ 0⟩ slidePath.joints r.2 := by
  have hstart : WithinLimits ⟨fun _ ↦ 1 / 100, fun _ ↦ 0⟩ slidePath.joints slideStore := by
    show ∀ j ∈ slidePath.joints, _
    decide +kernel
  exact fun h ↦ absurd ((calcInverseKinematics_withinLimits_iff spans_slide _ _ hstart).1 h)
    (by decide +kernel)

end JointPath

end OpenHRP
