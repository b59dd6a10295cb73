import OpenHRP.GrxUI.LogReload

/-!
# Which logs reload as they were written

A log that has been recorded is `Reloadable` if and only if it reloads as it was written
(`finishedLog_reloadsAsWritten_iff`). The two conditions that a simulation can easily break are that
every frame has a collision sequence and that the points are reported in numbers of the type
`float`.
-/

namespace OpenHRP

namespace LogManager

section Data

variable {F D : Type} [JavaFloat F] [JavaDouble D] [JavaCasts F D]

/-- When a finished log reloads as it was written. -/
structure Reloadable (dir : JString) (objects : List LogObject) (frames : List (Frame F D)) :
    Prop extends Loadable dir objects frames where
  objects_ne_nil : objects ≠ []
  pointsFit : PointsFit frames
  hasFloats : ∀ f ∈ frames, ∀ p ∈ f.points, p.HasFloats F

section Points

variable {frames : List (Frame F D)}

section

omit [JavaFloat F] [JavaDouble D] [JavaCasts F D]

/-- The points of a frame among those of all frames. -/
theorem flatMap_points_eq {i : ℕ} (hi : i < frames.length) :
    frames.flatMap Frame.points = (frames.take i).flatMap Frame.points ++ frames[i].points ++
      (frames.drop (i + 1)).flatMap Frame.points := by
  conv_lhs => rw [← List.take_append_drop i frames, List.drop_eq_getElem_cons hi]
  rw [List.flatMap_append, List.flatMap_cons, List.append_assoc]

/-- If no offset that is used has become negative, all of them have been counted. -/
theorem pointsFit_of_nonneg (h : ∀ (i : ℕ) (hi : i < frames.length), frames[i].points ≠ [] →
      0 ≤ toInt (pointCount (frames.take i) * COLLISION_DATA_SIZE) ∧
        frames[i].points.length * COLLISION_DATA_SIZE < 2 ^ 31) : PointsFit frames := by
  -- Two sizes that are counted do not reach the offsets that are counted again.
  have hfit (x : ℤ) (hx : 0 ≤ x ∧ x < 2 ^ 32) (hint : 0 ≤ toInt x) : x < 2 ^ 31 := by
    rw [toInt] at hint
    rcases lt_or_ge x (2 ^ 31) with hlt | hge
    · exact hlt
    · have hwrap : x.bmod (2 ^ 32) = x - 2 ^ 32 := by
        rw [← Int.sub_bmod_right x (2 ^ 32)]
        exact Int.bmod_eq_of_le (by omega) (by omega)
      omega
  have hnonneg (n : ℕ) : 0 ≤ n * COLLISION_DATA_SIZE :=
    mul_nonneg (Int.natCast_nonneg n) (by norm_num [COLLISION_DATA_SIZE])
  have hcount (i : ℕ) (hi : i ≤ frames.length) :
      pointCount (frames.take i) * COLLISION_DATA_SIZE < 2 ^ 32 := by
    induction i with
    | zero => simp [pointCount]
    | succ i ih =>
      have hi' : i < frames.length := hi
      rw [pointCount_take_succ hi', Nat.cast_add, add_mul]
      rcases eq_or_ne frames[i].points [] with hnil | hne
      · rw [hnil, List.length_nil, Nat.cast_zero, zero_mul, add_zero]
        exact ih hi'.le
      · obtain ⟨hfirst, hsize⟩ := h i hi' hne
        have hlt := hfit _ ⟨hnonneg _, ih hi'.le⟩ hfirst
        omega
  intro i hi hne
  obtain ⟨hfirst, hsize⟩ := h i hi hne
  exact ⟨hfit _ ⟨hnonneg _, hcount i hi.le⟩ hfirst, hsize⟩

end

end Points

section Reload

variable {dir : JString} {objects : List LogObject} {time : SimulationTime} {method : JString}
  {frames : List (Frame F D)} {endTime : ℤ} {m : LogManager}

theorem Recorded.collisionLogDatFile_loaded
    (hm : Recorded dir objects time method frames endTime m) :
    m.disk (loaded dir objects time method frames endTime m.disk).collisionLogDatPath =
      some ((frames.flatMap Frame.points).flatMap (pointBytes F)) := by
  have hfile := hm.collisionLogDatFile
  rwa [collisionLogDatPath, pathOf_eq hm.tmpdir] at hfile

/-- Where a log has an object, the points of a frame are read from the data file. -/
theorem getCollisionPointData_eq_readFrame (hobjects : objects ≠ [])
    (hcount : frames.length + 1 < 2 ^ 31) (disk : Disk) {i : ℕ} (hi : i < frames.length) :
    (loaded dir objects time method frames endTime disk).getCollisionPointData F D i =
      readFrame F D disk
        (loaded dir objects time method frames endTime disk).collisionLogDatPath
        (toInt (pointCount (frames.take i) * COLLISION_DATA_SIZE))
        (toInt (frames[i].points.length * COLLISION_DATA_SIZE)) := by
  rw [getCollisionPointData_loaded hcount hi, readCollisionPoints_loaded hobjects]

/-- The points of a frame are found again when their place has been counted. -/
theorem Recorded.readFrame_eq (hm : Recorded dir objects time method frames endTime m)
    (hfit : PointsFit frames) {i : ℕ} (hi : i < frames.length) :
    readFrame F D m.disk
        (loaded dir objects time method frames endTime m.disk).collisionLogDatPath
        (toInt (pointCount (frames.take i) * COLLISION_DATA_SIZE))
        (toInt (frames[i].points.length * COLLISION_DATA_SIZE)) =
      .ok (if frames[i].points = [] then none
        else some (frames[i].points.map (CollisionPoint.rounded F))) := by
  rcases eq_or_ne frames[i].points [] with hnil | hne
  · rw [if_pos hnil, hnil]
    exact readFrame_zero _ _ _
  · obtain ⟨hfirst, hsize⟩ := hfit i hi hne
    rw [if_neg hne]
    exact LogManager.readFrame_eq (flatMap_points_eq hi ▸ hm.collisionLogDatFile_loaded) hne
      hfirst hsize

/-- A reloadable log reloads as it was written. -/
theorem Recorded.reloadsAsWritten (hm : Recorded dir objects time method frames endTime m)
    (hnames : (objects.map LogObject.objectName).Nodup)
    (hframes : ∀ f ∈ frames, f.Complete objects) (hend : EndsAt time frames.length endTime)
    (h : Reloadable dir objects frames) : m.ReloadsAsWritten D objects frames := by
  have hcount := h.count
  refine ⟨_, hm.reload_eq hnames hend h.toLoadable, fun o ho ↦ getRecordNum_loaded hnames hcount ho,
    fun i hi ↦ ⟨⟨by omega, by omega⟩, fun q hq ↦ ?_, ?_⟩⟩
  · have hcomplete := hframes _ (List.getElem_mem hi)
    obtain ⟨o, ho, hname⟩ :=
      List.mem_map.mp (hcomplete.keys.subset (List.mem_map_of_mem hq))
    have hget := hm.get_loaded hnames hend.isLong hcount hframes hi ho
    rwa [hname, Frame.recordOf_eq (hcomplete.keys.nodup_iff.mpr hnames) hq] at hget
  · have hrounded : frames[i].points.map (CollisionPoint.rounded F) = frames[i].points :=
      (List.map_congr_left fun p hp ↦ CollisionPoint.rounded_eq_self_iff.mpr
        (h.hasFloats _ (List.getElem_mem hi) p hp)).trans (List.map_id _)
    rw [getCollisionPointData_eq_readFrame h.objects_ne_nil hcount m.disk hi,
      hm.readFrame_eq h.pointsFit hi, hrounded]

/-- A log that reloads as it was written is reloadable. -/
theorem Recorded.reloadable (hm : Recorded dir objects time method frames endTime m)
    (hnames : (objects.map LogObject.objectName).Nodup)
    (hend : EndsAt time frames.length endTime) (hne : frames ≠ [])
    (hreload : m.ReloadsAsWritten D objects frames) : Reloadable dir objects frames := by
  have hload := hm.loadable hnames hend hne hreload
  obtain ⟨r, hr, -, hframe⟩ := hreload
  rw [hm.reload_eq hnames hend hload] at hr
  obtain rfl := Except.ok.inj hr
  have hobjects : objects ≠ [] := by
    rintro rfl
    have hi := List.length_pos_iff.mpr hne
    obtain ⟨-, -, hpoints⟩ := hframe 0 hi
    rw [getCollisionPointData_loaded hload.count hi, readCollisionPoints_loaded_nil] at hpoints
    cases hpoints
  have hread (i : ℕ) (hi : i < frames.length) := by
    obtain ⟨-, -, hpoints⟩ := hframe i hi
    rwa [getCollisionPointData_eq_readFrame hobjects hload.count m.disk hi] at hpoints
  have hfit : PointsFit frames := by
    refine pointsFit_of_nonneg fun i hi hpoints ↦ ?_
    have hi' := hread i hi
    rw [if_neg hpoints] at hi'
    exact bounds_of_readFrame hi'
  refine ⟨hload, hobjects, hfit, fun f hf p hp ↦ ?_⟩
  obtain ⟨i, hi, rfl⟩ := List.getElem_of_mem hf
  have hpoints : frames[i].points ≠ [] := List.ne_nil_of_mem hp
  have hi' := hread i hi
  rw [hm.readFrame_eq hfit hi, if_neg hpoints, if_neg hpoints] at hi'
  have hmap : frames[i].points.map (CollisionPoint.rounded F) = frames[i].points.map id := by
    rw [List.map_id]
    exact Option.some.inj (Except.ok.inj hi')
  exact CollisionPoint.rounded_eq_self_iff.mp (List.map_inj_left.mp hmap p hp)

/-- Objects of different names are registered in their order. -/
theorem addLogObjects_eq (hnames : (objects.map LogObject.objectName).Nodup)
    (hnew : ∀ o ∈ objects, ∀ h ∈ m.header, h.objectName ≠ o.objectName) :
    m.addLogObjects objects = .ok (m.appendHeaders (objects.map LogObject.header)) := by
  induction objects generalizing m with
  | nil =>
    rw [List.map_nil, appendHeaders, List.append_nil]
    rfl
  | cons o objects ih =>
    obtain ⟨ho, hnames⟩ := List.nodup_cons.mp hnames
    have hadd : m.addLogObject o.objectName o.format = .ok (m.appendHeaders [o.header]) := by
      rw [addLogObject, o.new_eq, ← putHeader_eq (o.header_objectName ▸ hnew o (.head objects))]
      rfl
    have hrest := ih (m := m.appendHeaders [o.header]) hnames fun p hp h hh ↦ by
      rcases List.mem_append.mp hh with hh | hh
      · exact hnew p (.tail o hp) h hh
      · rw [List.mem_singleton.mp hh, o.header_objectName]
        exact fun hname ↦ ho (hname ▸ List.mem_map_of_mem hp)
    rw [addLogObjects, List.foldlM_cons, hadd]
    refine hrest.trans ?_
    simp only [appendHeaders, List.append_assoc, List.map_cons, List.singleton_append]

/-- A log of some objects that a new manager records. -/
def finishedLog (disk : Disk) (dir : JString) (objects : List LogObject) (time : SimulationTime)
    (method : JString) (frames : List (Frame F D)) : Except LogException LogManager := do
  let m ← ((new disk).setTempDir dir).addLogObjects objects
  m.recordLog time method frames

/-- The frames follow each other in time steps. -/
def AtTimeSteps (time : SimulationTime) (frames : List (Frame F D)) : Prop :=
  ∀ (i : ℕ) (hi : i < frames.length),
    frames[i].time.getUtime = time.startTime.getUtime + i * time.timeStep.getUtime

/-- A log of frames that follow each other in time steps is recorded to its end. -/
theorem exists_finishedLog (disk : Disk) (dir : JString) (method : JString)
    (hnames : (objects.map LogObject.objectName).Nodup) (hstep : 0 < time.timeStep.getUtime)
    (hne : frames ≠ []) (htimes : AtTimeSteps time frames)
    (hframes : ∀ f ∈ frames, f.Complete objects) :
    ∃ endTime m, finishedLog disk dir objects time method frames = .ok m ∧
      EndsAt time frames.length endTime ∧
      Recorded dir objects time method frames endTime m := by
  have hlen : 0 < frames.length := List.length_pos_iff.mpr hne
  have hadd := addLogObjects_eq (m := (new disk).setTempDir dir) hnames
    fun _ _ h hh ↦ absurd hh List.not_mem_nil
  obtain ⟨m, hm, hrec⟩ : ∃ m, (((new disk).setTempDir dir).appendHeaders
      (objects.map LogObject.header)).recordLog time method frames = .ok m ∧
      Recorded dir objects time method frames (frames.getLast hne).time.getUtime m :=
    recordLog_eq rfl (List.nil_append _) hnames hframes (List.getLast?_eq_some_getLast hne)
  refine ⟨_, m, ?_, ⟨hstep, ?_, Time.getUtime_bounds _⟩, hrec⟩
  · rw [finishedLog, hadd]
    exact hm
  · rw [List.getLast_eq_getElem, htimes _ (by omega), Nat.cast_pred hlen]

/-- A recorded log reloads as it was written if and only if it is reloadable: the offsets of the
collision points are counted by frames with a collision sequence when they are written, but by time
steps when they are read. -/
theorem finishedLog_reloadsAsWritten_iff (disk : Disk) (dir : JString) (method : JString)
    (hnames : (objects.map LogObject.objectName).Nodup) (hstep : 0 < time.timeStep.getUtime)
    (hne : frames ≠ []) (htimes : AtTimeSteps time frames)
    (hframes : ∀ f ∈ frames, f.Complete objects) :
    (∃ m, finishedLog disk dir objects time method frames = .ok m ∧
        m.ReloadsAsWritten D objects frames) ↔
      Reloadable dir objects frames := by
  obtain ⟨endTime, m, hm, hend, hrec⟩ :=
    exists_finishedLog disk dir method hnames hstep hne htimes hframes
  constructor
  · rintro ⟨m', hm', hreload⟩
    rw [hm] at hm'
    obtain rfl := Except.ok.inj hm'
    exact hrec.reloadable hnames hend hne hreload
  · intro h
    exact ⟨m, hm, hrec.reloadsAsWritten hnames hframes hend h⟩

end Reload

end Data

/-! ### Two logs of one frame -/

/-- A simulation with a time step of a millisecond. -/
def millisecondSteps : SimulationTime where
  totalTime := ⟨1, 0, isInt_one, isInt_zero⟩
  startTime := .zero
  timeStep := ⟨1, 0, isInt_one, isInt_zero⟩

/-- The frame of a body that rests at the origin, turned by no angle around the second axis, with
some collisions. -/
def boxFrame (collisions : List (Option (List (CollisionPoint (BitVec 64))))) :
    Frame (BitVec 32) (BitVec 64) where
  time := .zero
  collisions
  records := [("box".toList, [0, 0, 0, 0, 0, 0x3F800000, 0, 0])]

theorem complete_boxFrame (collisions : List (Option (List (CollisionPoint (BitVec 64))))) :
    (boxFrame collisions).Complete [boxObject] where
  keys := List.Perm.refl _
  length o ho := by
    rw [List.mem_singleton.mp ho]
    rfl

theorem atTimeSteps_boxFrame (collisions : List (Option (List (CollisionPoint (BitVec 64))))) :
    AtTimeSteps millisecondSteps [boxFrame collisions] := by
  intro i hi
  obtain rfl : i = 0 := Nat.lt_one_iff.mp hi
  rfl

/-- A collision at the origin. -/
def originPoint : CollisionPoint (BitVec 64) where
  position _ := 0
  normal _ := 0
  idepth := 0

theorem finishedLog_reloadsAsWritten_box :
    ∃ m, finishedLog (fun _ ↦ none) "tmp".toList [boxObject] millisecondSteps "EULER".toList
        [boxFrame [some [originPoint]]] = .ok m ∧
      m.ReloadsAsWritten (BitVec 64) [boxObject] [boxFrame [some [originPoint]]] := by
  refine (finishedLog_reloadsAsWritten_iff (fun _ ↦ none) "tmp".toList "EULER".toList (by simp)
    (by decide) (by simp) (atTimeSteps_boxFrame _) fun f hf ↦ ?_).mpr
      ⟨⟨?_, by decide, by decide, by simp [boxFrame]⟩, by simp, fun i hi _ ↦ ?_, fun f hf p hp ↦ ?_⟩
  · exact List.mem_singleton.mp hf ▸ complete_boxFrame _
  · intro o ho
    rw [List.mem_singleton.mp ho]
    exact ⟨by decide, by decide⟩
  · obtain rfl : i = 0 := Nat.lt_one_iff.mp hi
    exact ⟨by decide, show (1 : ℤ) * 32 < 2 ^ 31 by decide⟩
  · obtain rfl := List.mem_singleton.mp hf
    obtain rfl := List.mem_singleton.mp hp
    have hzero : IsFloat (BitVec 32) (0 : BitVec 64) := rfl
    exact fun _ ↦ ⟨hzero, hzero⟩

/-- The log of a body that does not touch anything is not loaded. -/
theorem not_reloadsAsWritten_box :
    ¬ ∃ m, finishedLog (fun _ ↦ none) "tmp".toList [boxObject] millisecondSteps "EULER".toList
        [boxFrame []] = .ok m ∧
      m.ReloadsAsWritten (BitVec 64) [boxObject] [boxFrame []] := by
  have hnames : ([boxObject].map LogObject.objectName).Nodup := by simp
  have hframes : ∀ f ∈ [boxFrame []], f.Complete [boxObject] := fun f hf ↦
    List.mem_singleton.mp hf ▸ complete_boxFrame _
  obtain ⟨endTime, m, hm, hend, hrec⟩ := exists_finishedLog (fun _ ↦ none) "tmp".toList
    "EULER".toList hnames (by decide) (by simp) (atTimeSteps_boxFrame _) hframes
  rintro ⟨m', hm', hreload⟩
  rw [hm] at hm'
  obtain rfl := Except.ok.inj hm'
  have hload := hrec.loadable hnames hend (by simp) hreload
  exact hload.collisions _ (List.mem_singleton.mpr rfl) rfl

end LogManager

end OpenHRP
