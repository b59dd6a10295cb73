import OpenHRP.SDims.ScheduleTree
import Mathlib.Tactic.NormNum

/-!
# The default schedule

`default_schedule` makes a subchain for a joint, and for its brothers and children in turn; the link
of the joint is a leaf at its last child. It returns at virtual joints, which are inserted
afterwards, just below the subchain of the root. But it also returns from their brothers: the links
that come after a virtual joint among the children of a link are forgotten, with all that is below
them. A joint is added in front of the children that are there, so that this happens when a virtual
joint is added last (`forgetsNoLink_iff`).
-/

namespace OpenHRP.SDims

variable {ι K : Type*} [Field K] [LinearOrder K]

namespace Mechanism

variable (M : Mechanism ι K)

/-- The pointer is that of a joint that is not virtual. -/
def isRealChild : JointPtr ι → Bool
  | .null => false
  | .joint c _ _ => (M.real c).isNone

/-- `default_schedule`, for a joint with the given `parent`. -/
def defaultSchedule (parent : Option ι) : JointPtr ι → SubChain ι
  | .null => .null
  | .joint j child brother =>
    if (M.real j).isSome then .null
    else if M.mass j < tinyMass ∧ parent.isSome then
      (defaultSchedule parent brother).orElse (defaultSchedule (some j) child)
    else
      let c1 := (defaultSchedule parent brother).orElse (parent.elim .null .leaf)
      let c0 := if M.isRealChild child then defaultSchedule (some j) child else .null
      .node j (c0.orElse (.leaf j)) c1

/-- A virtual joint is inserted below the top of the schedule. -/
def insertVirtual (v : ι) : SubChain ι → Option (SubChain ι)
  | .node top c0 c1 => some (.node top (.loop v c0) c1)
  | _ => none

/-- The joint is virtual and no contact. -/
def IsLoopJoint (v : ι) : Prop := (M.real v).isSome ∧ v ∉ M.contactVjoints

variable [DecidableEq ι]

instance : DecidablePred M.IsLoopJoint := fun _ ↦ inferInstanceAs (Decidable (_ ∧ _))

/-- `default_schedule_virtual`; a null pointer is read when there is no schedule. -/
def defaultScheduleVirtual : JointPtr ι → SubChain ι → Option (SubChain ι)
  | .null, subchains => some subchains
  | .joint j child brother, subchains =>
    let inserted := if M.IsLoopJoint j then insertVirtual j subchains else some subchains
    (inserted.bind (defaultScheduleVirtual brother)).bind (defaultScheduleVirtual child)

/-- The tree that `Schedule` builds. -/
def schedule : Option (SubChain ι) :=
  let root := .joint M.root M.child .null
  M.defaultScheduleVirtual root (M.defaultSchedule none root)

/-- The schedule `t` has every link once as a leaf, every joint that is not virtual once as a last
joint, and every virtual joint that is no contact once as a last joint, above them. -/
structure ForgetsNoLink (t : SubChain ι) : Prop where
  joint : ∀ j, M.IsLink j → t.lastJoints.count j = 1
  link : ∀ j, M.IsLink j → t.links.count j = 1
  virtual : ∀ v ∈ M.joints, M.IsLoopJoint v → t.lastJoints.count v = 1 ∧
    ∃ c, (SubChain.loop v c).Below t ∧
      ∀ j, M.IsLink j → j ∈ c.links ∧ (j ≠ M.root → j ∈ c.lastJoints)

end Mechanism

/-! ### The links that are scheduled -/

section Reached

variable {M : Mechanism ι K}

/-- The children are scheduled unless the first of them is virtual. -/
theorem ite_isRealChild (parent : Option ι) (f : JointPtr ι) :
    (if M.isRealChild f then M.defaultSchedule parent f else .null) =
      M.defaultSchedule parent f := by
  split
  · rfl
  · next h =>
    rcases f with _ | ⟨j, child, brother⟩
    · rfl
    · have hsome : (M.real j).isSome := Option.isSome_iff_ne_none.2 fun hnone ↦
        h (Option.isNone_iff_eq_none.2 hnone)
      rw [Mechanism.defaultSchedule, if_pos hsome]

/-- The subchain of the children of a link, or that of the link alone. -/
theorem orElse_leaf_spec {f : JointPtr ι} (p : ι)
    (hmass : ∀ j ∈ f.all, M.real j = none → tinyMass < M.mass j) :
    ((M.defaultSchedule (some p) f).orElse (.leaf p)).lastJoints = f.reached M.real ∧
      ((M.defaultSchedule (some p) f).orElse (.leaf p)).links.Perm (p :: f.reached M.real) := by
  induction f generalizing p with
  | null => exact ⟨rfl, .refl _⟩
  | joint j child brother ihc ihb =>
    obtain ⟨hjc, hlc⟩ := ihc j fun i hi ↦ hmass i (.tail _ (List.mem_append_left _ hi))
    obtain ⟨hjb, hlb⟩ := ihb p fun i hi ↦ hmass i (.tail _ (List.mem_append_right _ hi))
    rw [Mechanism.defaultSchedule, JointPtr.reached]
    split
    · exact ⟨rfl, .refl _⟩
    · next hreal =>
      have hnone : M.real j = none := Option.not_isSome_iff_eq_none.1 hreal
      rw [if_neg fun h ↦ (hmass j (.head _) hnone).not_gt h.1]
      rw [ite_isRealChild]
      constructor
      · show j :: (_ ++ _) = _
        rw [hjc]
        exact congrArg (fun l ↦ j :: (_ ++ l)) hjb
      · show (_ ++ _ : List ι).Perm _
        refine (hlc.append hlb).trans ?_
        exact (List.perm_middle :
          ((j :: child.reached M.real) ++ p :: brother.reached M.real).Perm _)

/-- The schedule before the virtual joints are inserted. -/
theorem exists_defaultSchedule_root (hmass : M.HasMass) :
    ∃ c0, M.defaultSchedule none (.joint M.root M.child .null) = .node M.root c0 .null ∧
      c0.lastJoints = M.child.reached M.real ∧ c0.links.Perm M.reached := by
  refine ⟨(M.defaultSchedule (some M.root) M.child).orElse (.leaf M.root), ?_,
    orElse_leaf_spec M.root hmass⟩
  have hroot : ¬ (M.real M.root).isSome := by
    rw [M.real_root]
    exact Bool.false_ne_true
  rw [Mechanism.defaultSchedule, if_neg hroot, if_neg fun h ↦ Bool.false_ne_true h.2,
    ite_isRealChild]
  rfl

end Reached

/-! ### Virtual joints -/

section Virtual

/-- Virtual joints above a subchain, the first of them above the others. -/
def loops : List ι → SubChain ι → SubChain ι
  | [], c => c
  | v :: vs, c => .loop v (loops vs c)

section

omit [Field K] [LinearOrder K]

theorem lastJoints_loops (vs : List ι) (c : SubChain ι) :
    (loops vs c).lastJoints = vs ++ c.lastJoints := by
  induction vs with
  | nil => rfl
  | cons v vs ih => exact congrArg (v :: ·) ih

theorem links_loops (vs : List ι) (c : SubChain ι) : (loops vs c).links = c.links := by
  induction vs with
  | nil => rfl
  | cons v vs ih => exact ih

/-- A virtual joint is above the subchain. -/
theorem exists_loop_below {vs : List ι} {v : ι} (hv : v ∈ vs) (c : SubChain ι) :
    ∃ ws, (SubChain.loop v (loops ws c)).Below (loops vs c) := by
  induction vs with
  | nil => cases hv
  | cons w vs ih =>
    rcases List.mem_cons.1 hv with rfl | hv
    · exact ⟨vs, .refl⟩
    · obtain ⟨ws, hws⟩ := ih hv
      exact ⟨ws, .loop hws⟩

end

variable [DecidableEq ι] {M : Mechanism ι K}

omit [Field K] [LinearOrder K] in
/-- Every virtual joint that is no contact is inserted, once. -/
theorem exists_defaultScheduleVirtual (f : JointPtr ι) (top : ι) (vs : List ι)
    (c0 c1 : SubChain ι) : ∃ ws, ws.Perm (f.all.filter M.IsLoopJoint) ∧
      M.defaultScheduleVirtual f (.node top (loops vs c0) c1) =
        some (.node top (loops (ws ++ vs) c0) c1) := by
  induction f generalizing vs with
  | null => exact ⟨[], .refl _, rfl⟩
  | joint j child brother ihc ihb =>
    set own : List ι := if M.IsLoopJoint j then [j] else [] with hown
    have hinsert : (if M.IsLoopJoint j then
          Mechanism.insertVirtual j (.node top (loops vs c0) c1)
        else some (.node top (loops vs c0) c1)) = some (.node top (loops (own ++ vs) c0) c1) := by
      rw [hown]
      split <;> rfl
    obtain ⟨wsb, hpermb, hb⟩ := ihb (own ++ vs)
    obtain ⟨wsc, hpermc, hc⟩ := ihc (wsb ++ (own ++ vs))
    refine ⟨wsc ++ (wsb ++ own), ?_, ?_⟩
    · have hfilter : (JointPtr.joint j child brother).all.filter M.IsLoopJoint =
          own ++ (child.all.filter M.IsLoopJoint ++ brother.all.filter M.IsLoopJoint) := by
        rw [JointPtr.all, List.filter_cons, List.filter_append, hown]
        by_cases hj : M.IsLoopJoint j <;> simp [hj]
      rw [hfilter]
      refine (hpermc.append (hpermb.append_right own)).trans ?_
      rw [← List.append_assoc]
      exact List.perm_append_comm
    · rw [Mechanism.defaultScheduleVirtual, hinsert, Option.bind_some, hb, Option.bind_some, hc]
      simp only [List.append_assoc]

/-- The schedule: the subchain of the root, the virtual joints below it, and the links that are
reached. -/
theorem exists_schedule (hmass : M.HasMass) :
    ∃ vs c0, M.schedule = some (.node M.root (loops vs c0) .null) ∧
      vs.Perm (M.joints.filter M.IsLoopJoint) ∧
      c0.lastJoints = M.child.reached M.real ∧ c0.links.Perm M.reached := by
  obtain ⟨c0, hc0, hlast, hlinks⟩ := exists_defaultSchedule_root hmass
  obtain ⟨vs, hperm, hvs⟩ := exists_defaultScheduleVirtual (M := M)
    (.joint M.root M.child .null) M.root [] c0 .null
  refine ⟨vs, c0, ?_, ?_, hlast, hlinks⟩
  · rw [Mechanism.schedule, hc0]
    rw [List.append_nil] at hvs
    exact hvs
  · rw [JointPtr.all, JointPtr.all, List.append_nil] at hperm
    exact hperm

/-- **The default schedule forgets no link** when no link comes after a virtual joint among the
children of its parent, or below one. -/
theorem forgetsNoLink_iff (hmass : M.HasMass) :
    (∃ t, M.schedule = some t ∧ M.ForgetsNoLink t) ↔ M.VirtualLast := by
  obtain ⟨vs, c0, hschedule, hperm, hlast, hlinks⟩ := exists_schedule hmass
  set t : SubChain ι := .node M.root (loops vs c0) .null
  have hlinkst : t.links = c0.links := by
    show (loops vs c0).links ++ [] = _
    rw [List.append_nil, links_loops]
  have hlastt : t.lastJoints = M.root :: (vs ++ M.child.reached M.real) := by
    show M.root :: ((loops vs c0).lastJoints ++ []) = _
    rw [List.append_nil, lastJoints_loops, hlast]
  have hvs {v : ι} : v ∈ vs ↔ v ∈ M.joints ∧ M.IsLoopJoint v := by
    rw [hperm.mem_iff, List.mem_filter, decide_eq_true_iff]
  rw [M.virtualLast_iff]
  constructor
  · rintro ⟨t', ht', h⟩ j hj
    obtain rfl : t = t' := Option.some_inj.1 (hschedule.symm.trans ht')
    have hcount := h.link j hj
    rw [hlinkst, hlinks.count_eq] at hcount
    exact List.count_pos_iff.1 (hcount ▸ one_pos)
  · refine fun h ↦ ⟨t, hschedule, fun j hj ↦ ?_, fun j hj ↦ ?_, fun v hv hloop ↦ ⟨?_, ?_⟩⟩
    · have hnot : j ∉ vs := fun hmem ↦
        Option.isSome_iff_ne_none.1 (hvs.1 hmem).2.1 hj.2
      rw [hlastt, List.count_cons, List.count_append, List.count_eq_zero.2 hnot, zero_add,
        ← List.count_cons]
      exact List.count_eq_one_of_mem M.nodup_reached (h j hj)
    · rw [hlinkst, hlinks.count_eq]
      exact List.count_eq_one_of_mem M.nodup_reached (h j hj)
    · have hnot : v ∉ M.reached := fun hmem ↦
        Option.isSome_iff_ne_none.1 hloop.1 (M.isLink_of_mem_reached hmem).2
      have hone : vs.count v = 1 := by
        rw [hperm.count_eq]
        refine List.count_eq_one_of_mem (M.nodup.filter _) (List.mem_filter.2 ⟨hv, ?_⟩)
        exact decide_eq_true hloop
      rw [hlastt, List.count_cons, List.count_append, hone, add_assoc, ← List.count_cons,
        show List.count v (M.root :: M.child.reached M.real) = 0 from List.count_eq_zero.2 hnot]
    · obtain ⟨ws, hbelow⟩ := exists_loop_below (hvs.2 ⟨hv, hloop⟩) c0
      refine ⟨loops ws c0, .child0 hbelow, fun j hj ↦ ⟨?_, fun hne ↦ ?_⟩⟩
      · rw [links_loops, hlinks.mem_iff]
        exact h j hj
      · rw [lastJoints_loops, hlast]
        exact List.mem_append_right _ ((List.mem_cons.1 (h j hj)).resolve_left hne)

end Virtual

/-! ### A body with an arm, on the floor -/

section Body

/-- The children of the body: the joint of the arm, and the contact with the floor that has been
left by an update. -/
def contactLeft : JointPtr (Fin 5) :=
  (JointPtr.null.addChild 3).addChild 4

/-- The body `1` with the arm `3`, and the floor `2`. The joint `4` is a contact of the body. -/
def bodyOnFloor (bodyChild : JointPtr (Fin 5))
    (h : (0 :: (JointPtr.joint 1 bodyChild (.joint 2 .null .null)).all).Nodup)
    (hfloor : 2 ∈ (0 :: (JointPtr.joint 1 bodyChild (.joint 2 .null .null)).all)) :
    Mechanism (Fin 5) ℚ where
  root := 0
  child := .joint 1 bodyChild (.joint 2 .null .null)
  real v := if v = 4 then some 2 else none
  mass _ := 1
  contactVjoints := [4]
  nodup := h
  real_root := rfl
  real_spec v r hr := by
    split at hr
    · cases hr
      exact ⟨hfloor, rfl⟩
    · cases hr

/-- With the contact in front of the arm. -/
def contactFirst : Mechanism (Fin 5) ℚ :=
  bodyOnFloor contactLeft (by decide) (by decide)

/-- With the contact after the arm. -/
def contactLast : Mechanism (Fin 5) ℚ :=
  bodyOnFloor (.joint 3 .null (.joint 4 .null .null)) (by decide) (by decide)

theorem forgetsNoLink_contactLast :
    ∃ t, contactLast.schedule = some t ∧ contactLast.ForgetsNoLink t :=
  (forgetsNoLink_iff fun _ _ _ ↦ by
    show (1 : ℚ) / 10 ^ 16 < 1
    norm_num).2 (by decide)

/-- The arm is forgotten. -/
theorem not_forgetsNoLink :
    ¬ ∃ t, contactFirst.schedule = some t ∧ contactFirst.ForgetsNoLink t := by
  rintro ⟨t, ht, h⟩
  have hrun : contactFirst.schedule.map SubChain.links = some [1, 2, 0] := by decide +kernel
  rw [ht] at hrun
  have hlink := h.link 3 ⟨by decide, rfl⟩
  rw [Option.some_inj.1 hrun] at hlink
  exact absurd hlink (by decide)

end Body

end OpenHRP.SDims
