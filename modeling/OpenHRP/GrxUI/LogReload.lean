import OpenHRP.GrxUI.LogRecording

/-!
# Reloading a log

A finished log is read back by another manager. It reloads as it was written when every frame has a
collision sequence: the writer adds an offset for every collision sequence that it puts, but the
reader expects one for every time step.
-/

namespace OpenHRP

namespace LogManager

/-! ### What can be loaded -/

section Loadable

variable {F D : Type}

/-- A path that is not taken for that of a collision file. -/
def IsObjectPath (path : JString) : Prop :=
  ¬ COLLISION_LOG_DAT_NAME <:+: path ∧ ¬ COLLISION_LOG_NAME <:+: path

/-- A finished log is loaded: no path is mistaken, the frames are counted by an `int`, and every
frame has a collision sequence. -/
structure Loadable (dir : JString) (objects : List LogObject) (frames : List (Frame F D)) :
    Prop where
  objectPath : ∀ o ∈ objects, IsObjectPath (dir ++ SEPARATOR ++ (o.objectName ++ POSTFIX))
  collisionPath : ¬ COLLISION_LOG_DAT_NAME <:+: dir ++ SEPARATOR ++ COLLISION_LOG_NAME
  count : frames.length + 1 < 2 ^ 31
  collisions : ∀ f ∈ frames, f.collisions ≠ []

theorem Loadable.sequences_eq {dir : JString} {objects : List LogObject}
    {frames : List (Frame F D)} (h : Loadable dir objects frames) :
    sequences frames = frames := by
  refine List.filter_eq_self.mpr fun f hf ↦ ?_
  simpa using h.collisions f hf

end Loadable

end LogManager

/-! ### What is read of a file -/

section Data

variable {F D : Type} [JavaFloat F] [JavaDouble D] [JavaCasts F D]

namespace CollisionPoint

variable (F) in
/-- A collision point as the log keeps it: only the depth is a `double`. -/
def rounded (p : CollisionPoint D) : CollisionPoint D where
  position k := toDouble (toFloat (p.position k) : F)
  normal k := toDouble (toFloat (p.normal k) : F)
  idepth := p.idepth

variable (F) in
/-- The numbers that the log keeps as `float` are of this type. -/
def HasFloats (p : CollisionPoint D) : Prop :=
  ∀ k, IsFloat F (p.position k) ∧ IsFloat F (p.normal k)

omit [JavaFloat F] [JavaDouble D] in
theorem rounded_eq_self_iff {p : CollisionPoint D} : p.rounded F = p ↔ p.HasFloats F := by
  constructor
  · intro h k
    exact ⟨congrFun (congrArg position h) k, congrFun (congrArg normal h) k⟩
  · intro h
    obtain ⟨position, normal, idepth⟩ := p
    rw [rounded, mk.injEq]
    exact ⟨funext fun k ↦ (h k).1, funext fun k ↦ (h k).2, rfl⟩

end CollisionPoint

namespace LogManager

theorem length_pointBytes (p : CollisionPoint D) : (pointBytes F p).length = 32 := by
  simp [pointBytes]

theorem vector_eq {α : Type*} (f : Fin 3 → α) : ![f 0, f 1, f 2] = f :=
  funext fun
    | 0 => rfl
    | 1 => rfl
    | 2 => rfl

theorem reads_readPoint (p : CollisionPoint D) :
    Reads (readPoint F D (getVersion currentVersion)) (pointBytes F p) (p.rounded F) := by
  have hidepth : readIdepth D (getVersion currentVersion) = readDouble D := by
    rw [readIdepth, getVersion_currentVersion, if_neg (by norm_num)]
  rw [pointBytes, readPoint, hidepth, CollisionPoint.rounded,
    ← vector_eq fun k ↦ toDouble (toFloat (p.position k) : F),
    ← vector_eq fun k ↦ toDouble (toFloat (p.normal k) : F)]
  simp only [List.append_assoc]
  refine (reads_readFloat _).bind ?_
  refine (reads_readFloat _).bind ?_
  refine (reads_readFloat _).bind ?_
  refine (reads_readFloat _).bind ?_
  refine (reads_readFloat _).bind ?_
  refine (reads_readFloat _).bind ?_
  rw [← List.append_nil (writeDouble p.idepth)]
  exact (reads_readDouble _).bind (Reads.pure _)

theorem readFloats_writeFloat (fs : List F) (rest : Bytes) :
    readFloats F fs.length (fs.flatMap writeFloat ++ rest) = fs := by
  induction fs with
  | nil => rfl
  | cons f fs ih =>
    rw [List.length_cons, readFloats, List.flatMap_cons, List.append_assoc,
      reads_readFloat f (fs.flatMap writeFloat ++ rest)]
    exact congrArg (f :: ·) ih

/-- Where pieces of the same length start. -/
theorem drop_flatMap {α : Type*} {g : α → Bytes} {k : ℕ} :
    ∀ {l : List α} (i : ℕ), (∀ a ∈ l, (g a).length = k) →
      (l.flatMap g).drop (k * i) = (l.drop i).flatMap g
  | _, 0, _ => by simp
  | [], i + 1, _ => by simp
  | a :: l, i + 1, h => by
    rw [List.drop_succ_cons, ← drop_flatMap i fun b hb ↦ h b (.tail a hb), List.flatMap_cons,
      Nat.mul_succ, Nat.add_comm, ← h a (.head l), ← List.drop_drop, List.drop_left]

/-! ### Loading the files of the objects -/

section Load

variable {dir : JString} {objects : List LogObject} {time : SimulationTime} {method : JString}
  {fs : List (Frame F D)} {n : ℕ} {endTime : ℤ} {m r r' : LogManager}

theorem isInt_str2IntIntegrationMethod (method : JString) :
    IsInt (str2IntIntegrationMethod method) := by
  rw [str2IntIntegrationMethod]
  rcases hi : INTEGRATION_METHOD_NAMES.findIdx? (· = method) with - | i
  · exact ⟨by norm_num, by norm_num⟩
  · have hlt : i < 2 := (List.findIdx?_eq_some_iff_getElem.mp hi).1
    constructor <;> dsimp only <;> omega

theorem encodable_closedHeader (time : SimulationTime) (method : JString) (n : ℕ)
    (hend : IsLong endTime) (o : LogObject) :
    (closedHeader time method n endTime o).Encodable := by
  obtain ⟨unitSize, -, ho⟩ := o.header_eq
  have hsize := toInt_of_isInt o.isInt_headerSize
  have hascii : ∀ s ∈ o.header.objectName :: o.header.dataFormat, IsAscii s := by
    rw [ho]
    exact o.isAscii
  have hheader : o.header.headerSize =
      LogHeader.headerSizeOf o.header.objectName o.header.dataFormat := by
    rw [ho]
    exact hsize
  have hint : IsInt o.header.headerSize := by
    rw [ho]
    exact isInt_toInt _
  have hrecord : IsInt o.header.recordSize := by
    rw [ho]
    exact isInt_toInt _
  exact {
    headerSize := hheader
    isInt_headerSize := hint
    totalTime := time.totalTime.isLong_getUtime
    startTime := time.startTime.isLong_getUtime
    endTime := hend
    timeStep := time.timeStep.isLong_getUtime
    method := isInt_str2IntIntegrationMethod method
    recordSize := hrecord
    numRecords := isInt_toInt _
    ascii := hascii }

theorem calcUnitSize_asRead_closedHeader (time : SimulationTime) (method : JString) (n : ℕ)
    (endTime : ℤ) (o : LogObject) :
    (closedHeader time method n endTime o).asRead.calcUnitSize =
      .ok (closedHeader time method n endTime o) := by
  obtain ⟨unitSize, hunit, ho⟩ := o.header_eq
  have hformat : (closedHeader time method n endTime o).asRead.dataFormat = o.format := by
    rw [closedHeader, openHeader, ho]
    rfl
  rw [LogHeader.calcUnitSize, hformat, hunit, closedHeader, openHeader, ho]
  rfl

/-- An entry that is not taken for one of the collision files. -/
def IsObjectEntry (r : LogManager) (entry : JString) : Prop :=
  ¬ COLLISION_LOG_DAT_NAME <:+: r.entryPath entry ∧ ¬ COLLISION_LOG_NAME <:+: r.entryPath entry

variable {o : LogObject}

/-- The file of an object gives its header back. -/
theorem loadEntry_object (hend : IsLong endTime) {records : Bytes}
    (hfile : r.disk (r.entryPath (o.objectName ++ POSTFIX)) =
      some ((closedHeader time method n endTime o).output ++ records))
    (hentry : r.IsObjectEntry (o.objectName ++ POSTFIX)) :
    r.loadEntry D (o.objectName ++ POSTFIX) =
      .ok (r.putHeader (closedHeader time method n endTime o)) := by
  have hread := LogHeader.reads_input D (encodable_closedHeader time method n hend o) records
  have hversion : ¬ getVersion (closedHeader time method n endTime o).asRead.version ≤ 100 := by
    rw [LogHeader.asRead, getVersion_currentVersion]
    norm_num
  rw [loadEntry, hfile, Option.getD_some, if_neg hentry.1, if_neg hentry.2, hread]
  simp only [bind, Except.bind]
  rw [if_neg hversion, calcUnitSize_asRead_closedHeader]
  rfl

/-- A manager with more headers. -/
def appendHeaders (r : LogManager) (hs : List LogHeader) : LogManager :=
  { r with header := r.header ++ hs }

/-- A header that has been put is in the table. -/
theorem mem_header_of_putHeader {h h' : LogHeader} (hh : h' ∈ (r.putHeader h).header) :
    h' ∈ r.header ∨ h' = h := by
  rw [putHeader] at hh
  dsimp only at hh
  split_ifs at hh
  · obtain ⟨g, hg, rfl⟩ := List.mem_map.mp hh
    split_ifs
    · exact .inr rfl
    · exact .inl hg
  · exact (List.mem_append.mp hh).imp_right List.mem_singleton.mp

/-- A header of a new name is put at the end. -/
theorem putHeader_eq {h : LogHeader} (hnew : ∀ h' ∈ r.header, h'.objectName ≠ h.objectName) :
    r.putHeader h = r.appendHeaders [h] := by
  have hany : r.header.any (·.objectName = h.objectName) = false :=
    List.any_eq_false.mpr fun h' hh ↦ by simpa using hnew h' hh
  rw [putHeader, hany]
  rfl

/-- The files of the objects give all headers back. -/
theorem foldlM_loadEntry_objects (hend : IsLong endTime) {records : LogObject → Bytes}
    {l : List LogObject} (hl : (l.map LogObject.objectName).Nodup)
    (hnew : ∀ o ∈ l, ∀ h ∈ r.header, h.objectName ≠ o.objectName)
    (hentry : ∀ o ∈ l, r.IsObjectEntry (o.objectName ++ POSTFIX))
    (hfile : ∀ o ∈ l, r.disk (r.entryPath (o.objectName ++ POSTFIX)) =
      some ((closedHeader time method n endTime o).output ++ records o)) :
    (l.map fun o ↦ o.objectName ++ POSTFIX).foldlM (loadEntry D) r =
      .ok (r.appendHeaders (l.map (closedHeader time method n endTime))) := by
  induction l generalizing r with
  | nil =>
    rw [List.map_nil, List.map_nil, appendHeaders, List.append_nil]
    rfl
  | cons o l ih =>
    obtain ⟨ho, hl⟩ := List.nodup_cons.mp hl
    have hput := putHeader_eq (h := closedHeader time method n endTime o) (r := r)
      (closedHeader_objectName time method n endTime o ▸ hnew o (.head l))
    have hnew' : ∀ p ∈ l, ∀ h ∈ (r.appendHeaders [closedHeader time method n endTime o]).header,
        h.objectName ≠ p.objectName := by
      intro p hp h hh
      rcases List.mem_append.mp hh with hh | hh
      · exact hnew p (.tail o hp) h hh
      · rw [List.mem_singleton.mp hh, closedHeader_objectName]
        exact fun hname ↦ ho (hname ▸ List.mem_map_of_mem hp)
    have hrest := ih hl hnew' (fun p hp ↦ hentry p (.tail o hp)) fun p hp ↦ hfile p (.tail o hp)
    rw [List.map_cons, List.foldlM_cons, loadEntry_object hend (hfile o (.head l))
      (hentry o (.head l)), hput]
    refine hrest.trans ?_
    simp only [appendHeaders, List.append_assoc, List.map_cons, List.singleton_append]

/-- An entry that is taken for a collision file adds no header. -/
theorem eq_of_loadEntry_of_not_isObjectEntry {entry : JString} (hentry : ¬ r.IsObjectEntry entry)
    (hload : r.loadEntry D entry = .ok r') :
    ∃ collisionLog, r' = { r with collisionLog } := by
  rw [loadEntry] at hload
  split_ifs at hload with hdat hcol
  · exact ⟨r.collisionLog, (Except.ok.inj hload).symm⟩
  · rcases hc : (CollisionLogHeader.input D).run ((r.disk (r.entryPath entry)).getD []) with
      e | ⟨c, rest⟩
    · rw [hc] at hload
      cases hload
    · rw [hc] at hload
      exact ⟨some c, (Except.ok.inj hload).symm⟩
  · exact absurd ⟨hdat, hcol⟩ hentry

/-- Whatever else is loaded, the headers come from the files of the objects. -/
theorem header_of_foldlM_loadEntry (hend : IsLong endTime) {records : LogObject → Bytes}
    {l : List LogObject} (hfile : ∀ o ∈ l, r.disk (r.entryPath (o.objectName ++ POSTFIX)) =
      some ((closedHeader time method n endTime o).output ++ records o))
    (hload : (l.map fun o ↦ o.objectName ++ POSTFIX).foldlM (loadEntry D) r = .ok r') :
    ∀ h ∈ r'.header, h ∈ r.header ∨ ∃ o ∈ l, r.IsObjectEntry (o.objectName ++ POSTFIX) ∧
      h.objectName = o.objectName := by
  induction l generalizing r with
  | nil =>
    rw [← Except.ok.inj hload]
    exact fun h hh ↦ .inl hh
  | cons o l ih =>
    rw [List.map_cons, List.foldlM_cons] at hload
    rcases hr₁ : r.loadEntry D (o.objectName ++ POSTFIX) with e | r₁
    · rw [hr₁] at hload
      cases hload
    rw [hr₁] at hload
    have hhead : r₁.tmpdir = r.tmpdir ∧ r₁.disk = r.disk ∧ ∀ h ∈ r₁.header, h ∈ r.header ∨
        r.IsObjectEntry (o.objectName ++ POSTFIX) ∧ h.objectName = o.objectName := by
      by_cases hentry : r.IsObjectEntry (o.objectName ++ POSTFIX)
      · rw [loadEntry_object hend (hfile o (.head l)) hentry] at hr₁
        rw [← Except.ok.inj hr₁]
        refine ⟨rfl, rfl, fun h hh ↦ (mem_header_of_putHeader hh).imp_right fun heq ↦ ?_⟩
        exact ⟨hentry, heq ▸ closedHeader_objectName time method n endTime o⟩
      · obtain ⟨c, rfl⟩ := eq_of_loadEntry_of_not_isObjectEntry hentry hr₁
        exact ⟨rfl, rfl, fun h hh ↦ .inl hh⟩
    obtain ⟨hdir, hdisk, hheader⟩ := hhead
    have hpath (e) : r₁.entryPath e = r.entryPath e := by rw [entryPath, hdir, entryPath]
    have hrest := ih (fun p hp ↦ by rw [hdisk, hpath]; exact hfile p (.tail o hp)) hload
    intro h hh
    rcases hrest h hh with hh | ⟨p, hp, hentry, hname⟩
    · rcases hheader h hh with hh | ⟨hentry, hname⟩
      · exact .inl hh
      · exact .inr ⟨o, .head l, hentry, hname⟩
    · rw [IsObjectEntry, hpath] at hentry
      exact .inr ⟨p, .tail o hp, hentry, hname⟩

/-! ### Loading the collision log -/

/-- A new manager in the directory of another one. -/
def loader (m : LogManager) : LogManager :=
  { new m.disk with tmpdir := m.tmpdir }

variable (D) in
/-- Load a finished log, and open it to be read. -/
def reload (m : LogManager) : Except LogException LogManager := do
  let r ← m.loader.load D m.savedEntries
  let r ← r.openAsRead
  r.openCollisionLogAsRead

/-- The time from the first frame to the last one counts the frames. -/
theorem frameSize_eq {startTime endTime timeStep : ℤ} (hstep : 0 < timeStep) {n : ℕ}
    (hend : endTime = startTime + (n - 1) * timeStep) (hlong : IsLong (endTime - startTime)) :
    CollisionLogHeader.frameSize startTime endTime timeStep = toInt n := by
  have hduration : endTime - startTime = (n - 1) * timeStep := by rw [hend]; ring
  have hround : ¬ (0 : ℤ) > timeStep / 2 := by omega
  rw [CollisionLogHeader.frameSize, toLong_of_isLong hlong, hduration,
    Int.mul_tdiv_cancel _ hstep.ne', Int.mul_tmod_left,
    if_neg hround]
  congr 1
  ring

theorem infix_entryPath (r : LogManager) (entry : JString) : entry <:+: r.entryPath entry :=
  (List.suffix_append _ _).isInfix

/-- The data file of the collisions is not read when a log is loaded. -/
theorem loadEntry_dat (r : LogManager) : r.loadEntry D COLLISION_LOG_DAT_NAME = .ok r :=
  if_pos (r.infix_entryPath _)

variable {c : CollisionLogHeader}

/-- The collision log is read up to its offsets. -/
theorem loadEntry_col (hc : c.Encodable)
    (hfile : r.disk (r.entryPath COLLISION_LOG_NAME) = some c.createLogHeader)
    (hentry : ¬ COLLISION_LOG_DAT_NAME <:+: r.entryPath COLLISION_LOG_NAME) :
    r.loadEntry D COLLISION_LOG_NAME =
      (c.unread.inputPositions.run (c.position.flatMap writeInt)).map
        fun (c, _) ↦ r.setCollisionLog c := by
  have hread := CollisionLogHeader.run_input D hc (c.position.flatMap writeInt)
  rw [loadEntry, hfile, Option.getD_some, if_neg hentry, if_pos (r.infix_entryPath _),
    CollisionLogHeader.createLogHeader, hread]
  rcases (CollisionLogHeader.inputPositions _).run _ with e | ⟨c, rest⟩ <;> rfl

/-! ### Loading all files -/

/-- The header of a collision log that has been loaded. -/
def loadedCollisionLog (time : SimulationTime) (frames : List (Frame F D)) (endTime : ℤ) :
    CollisionLogHeader :=
  { (closedCollisionLog time frames endTime).recalculated.unread with
    position := positions frames
    numRecords := frames.length }

/-- The manager that has loaded a finished log. -/
def loaded (dir : JString) (objects : List LogObject) (time : SimulationTime) (method : JString)
    (frames : List (Frame F D)) (endTime : ℤ) (disk : Disk) : LogManager :=
  { new disk with
    header := objects.map (closedHeader time method frames.length endTime)
    collisionLog := some (loadedCollisionLog time frames endTime)
    tmpdir := some dir
    readFile := true
    collisionIn := true }

theorem loader_entryPath (hdir : m.tmpdir = some dir) (entry : JString) :
    m.loader.entryPath entry = dir ++ SEPARATOR ++ entry := by
  rw [entryPath, loader, hdir, Option.getD_some]

variable {frames : List (Frame F D)}

theorem Recorded.objectFile_loader
    (hm : Recorded dir objects time method frames endTime m) (ho : o ∈ objects) :
    m.loader.disk (m.loader.entryPath (o.objectName ++ POSTFIX)) =
      some ((closedHeader time method frames.length endTime o).output ++
        frames.flatMap fun f ↦ (f.recordOf o.objectName).flatMap writeFloat) := by
  have hfile := hm.objectFile o ho
  rwa [getTempFilePath, pathOf_eq hm.tmpdir, ← loader_entryPath hm.tmpdir] at hfile

theorem Recorded.collisionLogFile_loader (hm : Recorded dir objects time method frames endTime m) :
    m.loader.disk (m.loader.entryPath COLLISION_LOG_NAME) =
      some (closedCollisionLog time (sequences frames) endTime).recalculated.createLogHeader := by
  have hfile := hm.collisionLogFile
  rwa [collisionLogPath, pathOf_eq hm.tmpdir, ← loader_entryPath hm.tmpdir] at hfile

/-- The objects are loaded first, then the collision log. -/
theorem Recorded.foldlM_savedEntries (hm : Recorded dir objects time method frames endTime m) :
    m.savedEntries.foldlM (loadEntry D) m.loader =
      ((objects.map fun o ↦ o.objectName ++ POSTFIX).foldlM (loadEntry D) m.loader).bind
        (loadEntry D · COLLISION_LOG_NAME) := by
  rw [hm.savedEntries, List.foldlM_append]
  refine congrArg (Except.bind _) (funext fun r ↦ ?_)
  rw [List.foldlM_cons]
  rcases r.loadEntry D COLLISION_LOG_NAME with e | r'
  · rfl
  change ([COLLISION_LOG_DAT_NAME].foldlM (loadEntry D) r') = .ok r'
  rw [List.foldlM_cons, loadEntry_dat]
  rfl

/-- The headers of all objects are loaded when no path is mistaken. -/
theorem Recorded.foldlM_objects (hm : Recorded dir objects time method frames endTime m)
    (hnames : (objects.map LogObject.objectName).Nodup) (hend : IsLong endTime)
    (hpath : ∀ o ∈ objects, IsObjectPath (dir ++ SEPARATOR ++ (o.objectName ++ POSTFIX))) :
    (objects.map fun o ↦ o.objectName ++ POSTFIX).foldlM (loadEntry D) m.loader =
      .ok (m.loader.appendHeaders
        (objects.map (closedHeader time method frames.length endTime))) := by
  refine foldlM_loadEntry_objects hend hnames (fun _ _ h hh ↦ absurd hh List.not_mem_nil)
    (fun o ho ↦ ?_) fun o ho ↦ hm.objectFile_loader ho
  rw [IsObjectEntry, loader_entryPath hm.tmpdir]
  exact hpath o ho

/-- What has been loaded is opened. -/
theorem reload_eq_of_foldlM {hs : List LogHeader}
    (hload : m.savedEntries.foldlM (loadEntry D) m.loader =
      .ok ((m.loader.appendHeaders hs).setCollisionLog c))
    (hobjects : ∀ h ∈ hs, (m.disk (m.getTempFilePath h.objectName)).isSome = true)
    (hcol : (m.disk m.collisionLogPath).isSome = true)
    (hdat : (m.disk m.collisionLogDatPath).isSome = true) :
    m.reload D = .ok { m.loader with
      header := hs
      collisionLog := some c
      readFile := true
      collisionIn := true } := by
  have hinit : m.loader.init = m.loader := rfl
  rw [reload, load, hinit, hload]
  change (do
    let r ← ((m.loader.appendHeaders hs).setCollisionLog c).openAsRead
    r.openCollisionLogAsRead) = _
  rw [openAsRead_eq (by exact hobjects)]
  exact openCollisionLogAsRead_eq hcol hdat

/-- The last frame is as many time steps after the first one as there are frames between. -/
structure EndsAt (time : SimulationTime) (n : ℕ) (endTime : ℤ) : Prop where
  timeStep_pos : 0 < time.timeStep.getUtime
  endTime_eq : endTime = time.startTime.getUtime + (n - 1) * time.timeStep.getUtime
  bounds : -2 ^ 42 < endTime ∧ endTime < 2 ^ 42

theorem EndsAt.isLong (h : EndsAt time n endTime) : IsLong endTime := by
  obtain ⟨h₁, h₂⟩ := h.bounds
  constructor <;> omega

theorem EndsAt.frameSize_eq (h : EndsAt time n endTime) :
    CollisionLogHeader.frameSize time.startTime.getUtime endTime time.timeStep.getUtime =
      toInt n := by
  obtain ⟨h₁, h₂⟩ := h.bounds
  obtain ⟨h₃, h₄⟩ := time.startTime.getUtime_bounds
  exact LogManager.frameSize_eq h.timeStep_pos h.endTime_eq ⟨by omega, by omega⟩

/-- A finished log whose frames all have collision sequences is loaded. -/
theorem Recorded.reload_eq (hm : Recorded dir objects time method frames endTime m)
    (hnames : (objects.map LogObject.objectName).Nodup)
    (hend : EndsAt time frames.length endTime) (hload : Loadable dir objects frames) :
    m.reload D = .ok (loaded dir objects time method frames endTime m.disk) := by
  have hcount := hload.count
  have hsize := hend.frameSize_eq
  rw [toInt_of_isInt ⟨by omega, by omega⟩] at hsize
  have hcol := loadEntry_col (D := D) (r := m.loader.appendHeaders
      (objects.map (closedHeader time method frames.length endTime)))
    (encodable_closedCollisionLog time hend.isLong frames)
    (hload.sequences_eq ▸ hm.collisionLogFile_loader)
    (loader_entryPath hm.tmpdir COLLISION_LOG_NAME ▸ hload.collisionPath)
  have hpositions : (closedCollisionLog time frames endTime).recalculated.unread.inputPositions.run
      ((positions frames).flatMap writeInt) =
      .ok (loadedCollisionLog time frames endTime, []) := by
    refine CollisionLogHeader.run_inputPositions hend.timeStep_pos.ne'
      (fun p hp ↦ isInt_of_mem_positions hp) hsize ?_
    rw [toInt_of_isInt ⟨by omega, by omega⟩, length_positions]
    omega
  have hrun : m.savedEntries.foldlM (loadEntry D) m.loader = .ok ((m.loader.appendHeaders
      (objects.map (closedHeader time method frames.length endTime))).setCollisionLog
        (loadedCollisionLog time frames endTime)) := by
    rw [hm.foldlM_savedEntries, hm.foldlM_objects hnames hend.isLong hload.objectPath]
    refine hcol.trans ?_
    exact congrArg (Except.map _) hpositions
  have hobjects : ∀ h ∈ objects.map (closedHeader time method frames.length endTime),
      (m.disk (m.getTempFilePath h.objectName)).isSome = true := by
    intro h hh
    obtain ⟨o, ho, rfl⟩ := List.mem_map.mp hh
    rw [closedHeader_objectName]
    exact Option.isSome_of_eq_some (hm.objectFile o ho)
  rw [reload_eq_of_foldlM hrun hobjects
    (Option.isSome_of_eq_some hm.collisionLogFile)
      (Option.isSome_of_eq_some hm.collisionLogDatFile)]
  rw [loaded, ← hm.tmpdir]
  rfl

/-! ### What is read back -/

variable (D) in
/-- A finished log is loaded again, every object has as many records as there were frames, and for
every frame the records and the collision points are those of the frame. -/
def ReloadsAsWritten (m : LogManager) (objects : List LogObject) (frames : List (Frame F D)) :
    Prop :=
  ∃ r, m.reload D = .ok r ∧
    (∀ o ∈ objects, r.getRecordNum o.objectName = .ok (frames.length : ℤ)) ∧
    ∀ (i : ℕ) (hi : i < frames.length), IsInt i ∧
      (∀ q ∈ frames[i].records, r.get F q.1 i = .ok (some q.2)) ∧
      r.getCollisionPointData F D i =
        .ok (if frames[i].points = [] then none else some frames[i].points)

/-- A manager whose files have been opened to be read. -/
def openReads (r : LogManager) : LogManager :=
  { r with readFile := true, collisionIn := true }

theorem exists_of_reload (hload : m.reload D = .ok r) :
    ∃ r', m.savedEntries.foldlM (loadEntry D) m.loader = .ok r' ∧
      r = r'.openReads := by
  have hinit : m.loader.init = m.loader := rfl
  rw [reload, load, hinit] at hload
  rcases hfold : m.savedEntries.foldlM (loadEntry D) m.loader with e | r'
  · rw [hfold] at hload
    cases hload
  refine ⟨r', rfl, ?_⟩
  rw [hfold] at hload
  change (do
    let r ← r'.openAsRead
    r.openCollisionLogAsRead) = .ok r at hload
  rw [openAsRead] at hload
  split_ifs at hload with hobjects
  · change openCollisionLogAsRead _ = .ok r at hload
    rw [openCollisionLogAsRead] at hload
    split_ifs at hload with hcollision
    exact (Except.ok.inj hload).symm
  · cases hload

/-- The frame before the last number of the type `int` has no entry in a table of offsets. -/
theorem getCollisionPointData_max (hc : r.collisionLog = some c)
    (hlen : c.position.length < 2 ^ 31) :
    r.getCollisionPointData F D ((2 ^ 31 - 2 : ℕ) : ℤ) = .error .indexOutOfBounds := by
  have hsize : toInt (((2 ^ 31 - 2 : ℕ) : ℤ) + 2) = -2 ^ 31 := by
    rw [toInt]
    decide
  have hlast : toInt (((2 ^ 31 - 2 : ℕ) : ℤ) + 1) = 2 ^ 31 - 1 := by
    rw [toInt]
    decide
  have hentry : positionAt c (2 ^ 31 - 1) = .error .indexOutOfBounds := by
    rw [positionAt, if_neg (by norm_num), List.getElem?_eq_none (by omega)]
  rw [getCollisionPointData, hc]
  dsimp only
  rw [hsize, hlast, if_neg (by omega), hentry]
  rfl

/-- The path of an object whose header has been loaded is not mistaken. -/
theorem Recorded.isObjectPath
    (hm : Recorded dir objects time method frames endTime m) (hend : IsLong endTime)
    (hload : (objects.map fun o ↦ o.objectName ++ POSTFIX).foldlM (loadEntry D) m.loader = .ok r)
    {h : LogHeader} (hh : r.headerOf o.objectName = some h) :
    IsObjectPath (dir ++ SEPARATOR ++ (o.objectName ++ POSTFIX)) := by
  have hname : h.objectName = o.objectName := by simpa using List.find?_some hh
  rcases header_of_foldlM_loadEntry hend (fun p hp ↦ hm.objectFile_loader hp) hload h
    (List.mem_of_find?_eq_some hh) with hmem | ⟨p, -, hentry, hp⟩
  · exact absurd hmem List.not_mem_nil
  · rwa [IsObjectEntry, loader_entryPath hm.tmpdir, ← hp, hname] at hentry

/-- The collision log that has been loaded was read from its file. -/
theorem Recorded.exists_inputPositions (hm : Recorded dir objects time method frames endTime m)
    (hend : IsLong endTime) {hs : List LogHeader}
    (hload : (m.loader.appendHeaders hs).loadEntry D COLLISION_LOG_NAME = .ok r)
    (hc : r.collisionLog = some c) :
    (¬ COLLISION_LOG_DAT_NAME <:+: dir ++ SEPARATOR ++ COLLISION_LOG_NAME) ∧
      ∃ rest, (closedCollisionLog time (sequences frames)
        endTime).recalculated.unread.inputPositions.run
          ((positions (sequences frames)).flatMap writeInt) = .ok (c, rest) := by
  have hcollision : ¬ COLLISION_LOG_DAT_NAME <:+: dir ++ SEPARATOR ++ COLLISION_LOG_NAME := by
    intro hdat
    rw [← loader_entryPath hm.tmpdir] at hdat
    have hskip : (m.loader.appendHeaders hs).loadEntry D COLLISION_LOG_NAME =
      .ok (m.loader.appendHeaders hs) := if_pos hdat
    rw [hskip] at hload
    rw [← Except.ok.inj hload] at hc
    cases hc
  refine ⟨hcollision, ?_⟩
  have hcol := loadEntry_col (D := D) (r := m.loader.appendHeaders hs)
    (encodable_closedCollisionLog time hend (sequences frames)) hm.collisionLogFile_loader
    (loader_entryPath hm.tmpdir COLLISION_LOG_NAME ▸ hcollision)
  rw [hload] at hcol
  change _ = Except.map _ (StateT.run _ ((positions (sequences frames)).flatMap writeInt)) at hcol
  rcases hrun : (closedCollisionLog time (sequences frames)
    endTime).recalculated.unread.inputPositions.run
      ((positions (sequences frames)).flatMap writeInt) with e | ⟨c', rest⟩
  · rw [hrun] at hcol
    cases hcol
  · rw [hrun] at hcol
    rw [Except.ok.inj hcol] at hc
    exact ⟨rest, by rw [← Option.some.inj hc]⟩

/-- A log that reloads as it was written can be loaded. -/
theorem Recorded.loadable (hm : Recorded dir objects time method frames endTime m)
    (hnames : (objects.map LogObject.objectName).Nodup)
    (hend : EndsAt time frames.length endTime) (hne : frames ≠ [])
    (hreload : m.ReloadsAsWritten D objects frames) : Loadable dir objects frames := by
  obtain ⟨r, hr, hnum, hframe⟩ := hreload
  obtain ⟨r', hfold, rfl⟩ := exists_of_reload hr
  rw [hm.foldlM_savedEntries] at hfold
  rcases hobjects : (objects.map fun o ↦ o.objectName ++ POSTFIX).foldlM (loadEntry D) m.loader with
    e | r₀
  · rw [hobjects] at hfold
    cases hfold
  rw [hobjects] at hfold
  change r₀.loadEntry D COLLISION_LOG_NAME = .ok r' at hfold
  obtain ⟨log, hr'⟩ := eq_of_loadEntry_of_not_isObjectEntry
    (fun h ↦ h.2 (r₀.infix_entryPath COLLISION_LOG_NAME)) hfold
  have hpath : ∀ o ∈ objects, IsObjectPath (dir ++ SEPARATOR ++ (o.objectName ++ POSTFIX)) := by
    intro o ho
    have hnum := hnum o ho
    rw [getRecordNum] at hnum
    rcases hhead : r₀.headerOf o.objectName with - | h
    · have hnone : r'.openReads.headerOf o.objectName = none := hr' ▸ hhead
      rw [hnone] at hnum
      cases hnum
    · exact hm.isObjectPath hend.isLong hobjects hhead
  rw [hm.foldlM_objects hnames hend.isLong hpath] at hobjects
  obtain rfl := Except.ok.inj hobjects
  have hlog : ∃ c, r'.collisionLog = some c := by
    obtain ⟨-, -, hpoints⟩ := hframe 0 (List.length_pos_iff.mpr hne)
    rcases hc : r'.collisionLog with - | c
    · have hnone : r'.openReads.collisionLog = none := hc
      rw [getCollisionPointData, hnone] at hpoints
      cases hpoints
    · exact ⟨c, rfl⟩
  obtain ⟨c, hc⟩ := hlog
  obtain ⟨hcollision, rest, hrun⟩ := hm.exists_inputPositions hend.isLong hfold hc
  have hcount : frames.length + 1 < 2 ^ 31 := by
    by_contra hlt
    have hlen := CollisionLogHeader.length_position_of_inputPositions hrun
    obtain ⟨-, -, hpoints⟩ := hframe (2 ^ 31 - 2) (by omega)
    have herror := getCollisionPointData_max (F := F) (D := D) (r := r'.openReads) hc hlen
    cases herror.symm.trans hpoints
  refine ⟨hpath, hcollision, hcount, fun f hf hnil ↦ ?_⟩
  -- One frame less has an offset, but the reader asks for one for every frame.
  have hlt : (sequences frames).length < frames.length :=
    List.length_filter_lt_length_iff_exists.mpr ⟨f, hf, by simp [hnil]⟩
  have hsize := hend.frameSize_eq.trans (toInt_of_isInt ⟨by omega, by omega⟩)
  have hlen : ((positions (sequences frames)).length : ℤ) < toInt (CollisionLogHeader.frameSize
      time.startTime.getUtime endTime time.timeStep.getUtime + 1) := by
    rw [hsize, toInt_of_isInt ⟨by omega, by omega⟩, length_positions]
    omega
  have herror := CollisionLogHeader.run_inputPositions_of_lt
    (h := (closedCollisionLog time (sequences frames) endTime).recalculated.unread)
    hend.timeStep_pos.ne' (fun p hp ↦ isInt_of_mem_positions hp) hlen
  rw [hrun] at herror
  cases herror

/-! ### The records and the points of a loaded log -/

/-- The number of points of the frames before a frame, in bytes, and that of the frame are counted
by an `int`. -/
def PointsFit (frames : List (Frame F D)) : Prop :=
  ∀ (i : ℕ) (hi : i < frames.length), frames[i].points ≠ [] →
    pointCount (frames.take i) * COLLISION_DATA_SIZE < 2 ^ 31 ∧
      frames[i].points.length * COLLISION_DATA_SIZE < 2 ^ 31

section Loaded

variable {frames : List (Frame F D)} {disk : Disk}

section

omit [JavaFloat F] [JavaDouble D] [JavaCasts F D]

theorem headerOf_loaded (hnames : (objects.map LogObject.objectName).Nodup) (ho : o ∈ objects) :
    (loaded dir objects time method frames endTime disk).headerOf o.objectName =
      some (closedHeader time method frames.length endTime o) := by
  have hfind := find?_key_eq_some hnames ho
  have hheader : (loaded dir objects time method frames endTime disk).header =
    objects.map (closedHeader time method frames.length endTime) := rfl
  have hkey : (fun h : LogHeader ↦ decide (h.objectName = o.objectName)) ∘
      closedHeader time method frames.length endTime =
        fun o' ↦ decide (o'.objectName = o.objectName) := by
    funext o'
    rw [Function.comp_apply, closedHeader_objectName]
  rw [headerOf, hheader, List.find?_map, hkey, hfind]
  rfl

/-- The record count of every object is that of the frames. -/
theorem getRecordNum_loaded (hnames : (objects.map LogObject.objectName).Nodup)
    (hcount : frames.length + 1 < 2 ^ 31) (ho : o ∈ objects) :
    (loaded dir objects time method frames endTime disk).getRecordNum o.objectName =
      .ok (frames.length : ℤ) := by
  have hnum : (closedHeader time method frames.length endTime o).numRecords = frames.length :=
    toInt_of_isInt ⟨by omega, by omega⟩
  rw [getRecordNum, headerOf_loaded hnames ho]
  exact congrArg Except.ok hnum

end

/-- Where a record is found: the numbers do not leave the type `long`. -/
theorem record_position {h : LogHeader} (hh : h.Encodable) {k i : ℕ} (hsize : h.recordSize = 4 * k)
    (hi : i < 2 ^ 31) :
    toLong (h.headerSize + h.recordSize * (i : ℤ)) = (h.output.length + 4 * k * i : ℕ) := by
  have hlen := LogHeader.length_output hh
  have hint := hh.recordSize.2
  have hhead := hh.isInt_headerSize.2
  have hmul : 4 * k * i ≤ 2 ^ 31 * 2 ^ 31 := Nat.mul_le_mul (by omega) hi.le
  have hcast : h.headerSize + h.recordSize * (i : ℤ) = (h.output.length + 4 * k * i : ℕ) := by
    rw [hsize, ← hlen]
    push_cast
    ring
  rw [hcast]
  exact toLong_of_isLong ⟨by omega, by omega⟩

/-- The records are those of the frames. -/
theorem Recorded.get_loaded (hm : Recorded dir objects time method frames endTime m)
    (hnames : (objects.map LogObject.objectName).Nodup) (hend : IsLong endTime)
    (hcount : frames.length + 1 < 2 ^ 31) (hframes : ∀ f ∈ frames, f.Complete objects) {i : ℕ}
    (hi : i < frames.length) (ho : o ∈ objects) :
    (loaded dir objects time method frames endTime m.disk).get F o.objectName i =
      .ok (some (frames[i].recordOf o.objectName)) := by
  have hlen := (hframes _ (List.getElem_mem hi)).length o ho
  have hsize := o.recordSize_eq hlen
  have hhead := encodable_closedHeader time method frames.length hend o
  have hpos := record_position hhead hsize (show i < 2 ^ 31 by omega)
  have hfile := hm.objectFile o ho
  have hrecords (f) (hf : f ∈ frames) : ((f.recordOf o.objectName).flatMap writeFloat).length =
      4 * (frames[i].recordOf o.objectName).length := by
    have hf := o.recordSize_eq ((hframes f hf).length o ho)
    rw [length_flatMap_writeFloat]
    omega
  have hdrop : ((closedHeader time method frames.length endTime o).output ++
      frames.flatMap fun f ↦ (f.recordOf o.objectName).flatMap writeFloat).drop
        ((closedHeader time method frames.length endTime o).output.length +
          4 * (frames[i].recordOf o.objectName).length * i) =
      (frames[i].recordOf o.objectName).flatMap writeFloat ++
        (frames.drop (i + 1)).flatMap fun f ↦ (f.recordOf o.objectName).flatMap writeFloat := by
    rw [← List.drop_drop, List.drop_left, drop_flatMap i hrecords, List.drop_eq_getElem_cons hi,
      List.flatMap_cons]
  have hpath : (loaded dir objects time method frames endTime m.disk).getTempFilePath
      o.objectName = m.getTempFilePath o.objectName := by
    rw [getTempFilePath, getTempFilePath, pathOf_eq hm.tmpdir, pathOf_eq rfl]
  have hlen' : (closedHeader time method frames.length endTime o).recordSize.tdiv FLOAT_DATA_SIZE =
    ((frames[i].recordOf o.objectName).length : ℕ) := hlen.symm
  have hread : (loaded dir objects time method frames endTime m.disk).readFile = true := rfl
  have hdisk : (loaded dir objects time method frames endTime m.disk).disk = m.disk := rfl
  have hnonneg : ¬ ((frames[i].recordOf o.objectName).length : ℤ) < 0 := by omega
  rw [get, hread, headerOf_loaded hnames ho]
  dsimp only
  rw [hlen', hpath, hdisk, hfile, Option.getD_some, if_neg (by decide), if_neg hnonneg, hpos,
    if_neg (Int.natCast_nonneg _).not_gt, Int.toNat_natCast, Int.toNat_natCast, hdrop,
    readFloats_writeFloat]

section

omit [JavaFloat F] [JavaDouble D] [JavaCasts F D]

theorem positionAt_positions (hc : c.position = positions frames) {i : ℕ} (hi : i ≤ frames.length) :
    positionAt c i = .ok (toInt (pointCount (frames.take i) * COLLISION_DATA_SIZE)) := by
  have hget : c.position[i]? =
      some (toInt (pointCount (frames.take i) * COLLISION_DATA_SIZE)) := by
    rw [hc, positions, List.getElem?_map, List.getElem?_range (by omega)]
    rfl
  rw [positionAt, if_neg (Int.natCast_nonneg i).not_gt, Int.toNat_natCast, hget]

theorem pointCount_take_succ {i : ℕ} (hi : i < frames.length) :
    pointCount (frames.take (i + 1)) = pointCount (frames.take i) + frames[i].points.length := by
  rw [List.take_succ_eq_append_getElem hi, pointCount_concat]

end

variable (F D) in
/-- What is read for a frame of a loaded log that starts at an offset and has a size. -/
def readFrame (disk : Disk) (path : JString) (first size : ℤ) :
    Except LogException (Option (List (CollisionPoint D))) :=
  if size ≤ 0 then .ok none
  else if first < 0 then .error .io
  else do
    let (points, _) ← (readMany (readPoint F D (getVersion currentVersion))
      (size.tdiv COLLISION_DATA_SIZE).toNat).run (((disk path).getD []).drop first.toNat)
    return some points

/-- The points of a frame are read where the frame starts. -/
theorem getCollisionPointData_loaded (hcount : frames.length + 1 < 2 ^ 31) {i : ℕ}
    (hi : i < frames.length) :
    (loaded dir objects time method frames endTime disk).getCollisionPointData F D i =
      (loaded dir objects time method frames endTime disk).readCollisionPoints F D
        (toInt (pointCount (frames.take i) * COLLISION_DATA_SIZE))
        (toInt (frames[i].points.length * COLLISION_DATA_SIZE)) := by
  have hlast : toInt ((i : ℤ) + 1) = (i + 1 : ℕ) := toInt_of_isInt ⟨by omega, by omega⟩
  have hbound : ¬ ((positions frames).length : ℤ) < toInt (i + 2) := by
    rw [toInt_of_isInt ⟨by omega, by omega⟩, length_positions]
    omega
  have hsize : toInt (toInt (pointCount (frames.take (i + 1)) * COLLISION_DATA_SIZE) -
      toInt (pointCount (frames.take i) * COLLISION_DATA_SIZE)) =
      toInt (frames[i].points.length * COLLISION_DATA_SIZE) := by
    rw [toInt_toInt_sub_toInt, pointCount_take_succ hi, Nat.cast_add, add_mul,
      add_sub_cancel_left]
  have hlog : (loaded dir objects time method frames endTime disk).collisionLog =
    some (loadedCollisionLog time frames endTime) := rfl
  have hposition : (loadedCollisionLog time frames endTime).position = positions frames := rfl
  rw [getCollisionPointData, hlog]
  dsimp only
  rw [hposition, if_neg hbound, hlast, positionAt_positions hposition (by omega),
    positionAt_positions hposition hi.le, ← hsize]
  rfl

/-- Where a log has an object, its points are read from a data file of the current version. -/
theorem readCollisionPoints_loaded (hobjects : objects ≠ []) (first : ℤ) (n : ℕ) :
    (loaded dir objects time method frames endTime disk).readCollisionPoints F D first
        (toInt (n * COLLISION_DATA_SIZE)) =
      readFrame F D disk
        (loaded dir objects time method frames endTime disk).collisionLogDatPath
        first (toInt (n * COLLISION_DATA_SIZE)) := by
  have hdvd : (toInt (n * COLLISION_DATA_SIZE)).tmod COLLISION_DATA_SIZE = 0 :=
    Int.tmod_eq_zero_of_dvd (dvd_toInt (by norm_num [COLLISION_DATA_SIZE]) (Dvd.intro_left _ rfl))
  have hnew : ¬ getVersion currentVersion ≤ 110 := by
    rw [getVersion_currentVersion]
    norm_num
  obtain ⟨o, rest, rfl⟩ := List.exists_cons_of_ne_nil hobjects
  have hheader : (loaded dir (o :: rest) time method frames endTime disk).header =
    closedHeader time method frames.length endTime o ::
      rest.map (closedHeader time method frames.length endTime) := rfl
  have hversion : (closedHeader time method frames.length endTime o).version = currentVersion := rfl
  have hopen : (loaded dir (o :: rest) time method frames endTime disk).collisionIn = true := rfl
  have hdisk : (loaded dir (o :: rest) time method frames endTime disk).disk = disk := rfl
  generalize toInt (n * COLLISION_DATA_SIZE) = size at hdvd ⊢
  rw [readCollisionPoints, hheader]
  dsimp only
  rw [hversion, if_neg (by decide), if_neg hnew, hopen, hdisk,
    if_neg (by decide : ¬ (!true) = true),
    if_congr (or_iff_right (not_not.mpr hdvd)) rfl rfl, readFrame]

/-- Without an object there is no version to read the points by. -/
theorem readCollisionPoints_loaded_nil (first size : ℤ) :
    (loaded dir [] time method frames endTime disk).readCollisionPoints F D first size =
      .error .noSuchElement :=
  rfl

/-- Nothing is read of a frame without points. -/
theorem readFrame_zero (disk : Disk) (path : JString) (first : ℤ) :
    readFrame F D disk path first (toInt ((0 : ℕ) * COLLISION_DATA_SIZE)) = .ok none := by
  rw [Nat.cast_zero, zero_mul, toInt_zero]
  exact if_pos le_rfl

/-- The points of a frame are read where they were written, as the log keeps them. -/
theorem readFrame_eq {path : JString} {before points after : List (CollisionPoint D)}
    (hfile : disk path = some ((before ++ points ++ after).flatMap (pointBytes F)))
    (hpoints : points ≠ []) (hfirst : before.length * COLLISION_DATA_SIZE < 2 ^ 31)
    (hsize : points.length * COLLISION_DATA_SIZE < 2 ^ 31) :
    readFrame F D disk path (toInt (before.length * COLLISION_DATA_SIZE))
        (toInt (points.length * COLLISION_DATA_SIZE)) =
      .ok (some (points.map (CollisionPoint.rounded F))) := by
  have hpos : 0 < points.length := List.length_pos_iff.mpr hpoints
  rw [COLLISION_DATA_SIZE] at hfirst hsize ⊢
  have hread := reads_readMany_map (p := readPoint F D (getVersion currentVersion)) points
    (fun p _ ↦ reads_readPoint p) (after.flatMap (pointBytes F))
  have hdrop : ((before ++ points ++ after).flatMap (pointBytes F)).drop (32 * before.length) =
      points.flatMap (pointBytes F) ++ after.flatMap (pointBytes F) := by
    rw [drop_flatMap _ fun p _ ↦ length_pointBytes p, List.append_assoc, List.drop_left,
      List.flatMap_append]
  have hnat : ((before.length : ℤ) * 32).toNat = 32 * before.length := by omega
  rw [readFrame, toInt_of_isInt ⟨by omega, by omega⟩, toInt_of_isInt ⟨by omega, by omega⟩,
    if_neg (by omega), if_neg (by omega), COLLISION_DATA_SIZE,
    Int.mul_tdiv_cancel _ (by norm_num), Int.toNat_natCast, hnat, hfile, Option.getD_some, hdrop,
    hread]
  rfl

/-- Points are read only where their offset and their size have been counted. -/
theorem bounds_of_readFrame {path : JString} {first : ℤ} {points : List (CollisionPoint D)}
    (hread : readFrame F D disk path first (toInt (points.length * COLLISION_DATA_SIZE)) =
      .ok (some points)) :
    0 ≤ first ∧ points.length * COLLISION_DATA_SIZE < 2 ^ 31 := by
  have hdvd : COLLISION_DATA_SIZE ∣ toInt (points.length * COLLISION_DATA_SIZE) :=
    dvd_toInt (by norm_num [COLLISION_DATA_SIZE]) (Dvd.intro_left _ rfl)
  have hint := isInt_toInt (points.length * COLLISION_DATA_SIZE)
  generalize hsize : toInt (points.length * COLLISION_DATA_SIZE) = size at hread hdvd hint
  obtain ⟨k, rfl⟩ := hdvd
  rw [readFrame] at hread
  split_ifs at hread with hpos hfirst
  · cases hread
  rw [Int.mul_tdiv_cancel_left _ (by norm_num [COLLISION_DATA_SIZE])] at hread
  rcases hrun : (readMany (readPoint F D (getVersion currentVersion)) k.toNat).run
    (((disk path).getD []).drop first.toNat) with e | ⟨points', rest⟩
  · rw [hrun] at hread
    cases hread
  rw [hrun] at hread
  obtain rfl : points' = points := Option.some.inj (Except.ok.inj hread)
  have hlen := length_of_readMany hrun
  rw [COLLISION_DATA_SIZE] at hpos hint ⊢
  exact ⟨not_lt.mp hfirst, by have := hint.2; omega⟩

end Loaded

end Load

end LogManager

end Data

end OpenHRP
