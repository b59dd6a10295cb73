import OpenHRP.GrxUI.WorldStateItem

/-!
# Saving a log that is partly in memory

A log whose first values are in memory and whose other values are in the files of the directory
`over` is saved in the parent directory: the values of the memory are written there, and then
`LogManager.jointLogs` is to append the files of `over`. It appends the files of its own directory
instead.
-/

namespace OpenHRP

namespace LogManager

/-! ### Joining logs -/

/-- The size of the buffer for copies. -/
def COPY_BUFFER_SIZE : ℕ := 1024 * 1024

/-- Copy what is left of a file to the end of a file. The file that is read may be the one that is
written. A round copies a byte at least, so that there are no more rounds than bytes. -/
def copyRest (src dest : JString) : ℕ → ℕ → ℤ → Stateful LogException LogManager PUnit
  | 0, _, _ => pure ⟨⟩
  | rounds + 1, pos, left =>
    if left ≤ 0 then pure ⟨⟩
    else do
      let m ← MonadState.get
      let bytes := (((m.disk src).getD []).drop pos).take COPY_BUFFER_SIZE
      if bytes = [] then throw .indexOutOfBounds
      else do
        modify (·.appendFile dest bytes)
        copyRest src dest rounds (pos + bytes.length) (left - bytes.length)

/-- Count more records of an object. -/
def addRecords (m : LogManager) (objectName : JString) (n : ℤ) : LogManager :=
  { m with header := m.header.map fun h ↦
      if h.objectName = objectName then { h with numRecords := toInt (h.numRecords + n) } else h }

/-- Append the records of the file of an object. -/
def jointObject (h : LogHeader) : Stateful LogException LogManager PUnit := do
  let m ← MonadState.get
  let src := m.entryPath (h.objectName ++ POSTFIX)
  match m.disk src with
  | none => throw .io
  | some file =>
    let left : ℤ := file.length - h.headerSize
    if h.recordSize = 0 then throw .arithmetic
    else do
      modify (·.addRecords h.objectName (left.tdiv h.recordSize))
      if !m.writeFile then throw .nullPointer
      else copyRest src (m.getTempFilePath h.objectName) left.toNat h.headerSize.toNat left

/-- Append the collision points. -/
def jointCollisionDat : Stateful LogException LogManager PUnit := do
  let m ← MonadState.get
  let src := m.entryPath COLLISION_LOG_DAT_NAME
  match m.disk src with
  | none => throw .io
  | some file =>
    if file ≠ [] ∧ m.collisionOut = false then throw .nullPointer
    else copyRest src m.collisionLogDatPath file.length 0 file.length

/-- Append the offsets of the collision log. -/
def jointCollisionLog (D : Type) [JavaDouble D] : Stateful LogException LogManager PUnit := do
  let m ← MonadState.get
  match m.disk (m.entryPath COLLISION_LOG_NAME) with
  | none => throw .io
  | some file =>
    match (CollisionLogHeader.input D).run file with
    | .error e => throw e
    | .ok (localColLog, _) =>
      match m.collisionLog with
      | none => throw .nullPointer
      | some c => modify (·.setCollisionLog (c.joinCollisionLogHeader localColLog))

/-- `jointLogs`. -/
def jointLogs (D : Type) [JavaDouble D] : Stateful LogException LogManager PUnit := do
  let m ← MonadState.get
  m.header.forM jointObject
  jointCollisionLog D
  jointCollisionDat

/-- `LogManager(logger)`, in a directory. -/
def newTemp (logger : LogManager) (tmp : JString) : LogManager :=
  { new logger.disk with
    header := logger.header
    collisionLog := logger.collisionLog
    tmpdir := some tmp }

/-- Close the files that are written, and go on where that fails. -/
def closeWrites (m : LogManager) : LogManager :=
  match m.closeAsWrite.closeCollisionLogAsWrite with
  | .ok m => m
  | .error _ => m.closeAsWrite

/-- Open the logs. What is thrown is caught. -/
def tryOpenLogs (m : LogManager) (time : SimulationTime) (method : JString) : LogManager :=
  match m.openLogs time method with
  | .ok m => m
  | .error _ => m

end LogManager

/-! ### Saving -/

namespace WorldStateItem

variable {F D : Type} [JavaFloat F] [JavaDouble D] [JavaCasts F D] [AxisAngles D]

/-- Write the values that are in memory, up to the first null. -/
def restoreValues (storeAllPos : Bool) :
    List (TValue D) → Stateful LogException (LogBuffer F) PUnit
  | ⟨_, some val⟩ :: rest => do
    LogBuffer.toLogFile storeAllPos val
    restoreValues storeAllPos rest
  | _ => pure ⟨⟩

/-- `_restoreLogFileFromSuperLog` where all values are in memory. -/
def restoreInMemory (item : WorldStateItem F D) : Except LogException (Option LogManager) := do
  let item ← item.log.foldlM (fun item tv ↦
    match tv.value with
    | none => pure item
    | some val => item.writeToLog val) item
  match item.logger.closeAsWrite.closeCollisionLogAsWrite with
  | .ok m => return some m
  | .error _ => return none

/-- `_restoreLogFileFromSuperLog` where some values are in the log, with the log manager that has
worked on the files. -/
def restoreSpilled (item : WorldStateItem F D) :
    Except LogException (Option LogManager) × LogManager :=
  let logger := item.logger.closeWrites
  match item.preStat, item.log with
  | some preStat, first :: _ =>
    let temp := (logger.newTemp (item.tempDirBase ++ item.name)).tryOpenLogs
      (item.simulationTime first.time) item.method
    match (restoreValues item.storeAllPos item.log).runOn ⟨temp, item.recDat⟩ with
    | (.error e, b) => (.error e, b.temp)
    | (.ok _, b) =>
      match (LogManager.jointLogs D).runOn b.temp with
      | (.error _, temp) => (.ok none, temp)
      | (.ok _, temp) =>
        let currentTime := Time.ofSeconds ((Time.ofSeconds preStat.time).getDouble D)
        let temp := (temp.setTime currentTime).closeAsWrite
        match temp.closeCollisionLogAsWrite with
        | .ok temp => (.ok (some temp), temp)
        | .error _ => (.ok none, temp)
  | _, _ => (.error .nullPointer, logger)

/-- `_restoreLogFileFromSuperLog`. -/
def restoreLogFileFromSuperLog (item : WorldStateItem F D) :
    Except LogException (Option LogManager) :=
  if item.changePos < 0 then item.restoreInMemory else item.restoreSpilled.1

end WorldStateItem

/-! ### What is left behind -/

namespace LogManager

/-- A log manager that writes a new log, whose collision log has no more offsets than this. The
offsets have not been written yet. -/
structure Unfinished (dir : JString) (time : SimulationTime) (n : ℕ) (m : LogManager) : Prop where
  tmpdir : m.tmpdir = some dir
  collisionLogFile : m.disk (dir ++ SEPARATOR ++ COLLISION_LOG_NAME) =
    some (openedCollisionLog time).createLogHeader
  collisionLog : ∃ c, m.collisionLog = some c ∧ c.position.length ≤ n

section Unfinished

variable {dir : JString} {time : SimulationTime} {n : ℕ} {m : LogManager}

theorem Unfinished.mono (h : Unfinished dir time n m) {n' : ℕ} (hn : n ≤ n') :
    Unfinished dir time n' m := by
  obtain ⟨c, hc, hlen⟩ := h.collisionLog
  exact ⟨h.tmpdir, h.collisionLogFile, c, hc, hlen.trans hn⟩

theorem Unfinished.collisionLogPath_eq (h : Unfinished dir time n m) :
    m.collisionLogPath = dir ++ SEPARATOR ++ COLLISION_LOG_NAME :=
  pathOf_eq h.tmpdir _

/-- Logs are opened, whatever objects they have. -/
theorem unfinished_tryOpenLogs (hdir : m.tmpdir = some dir) (time : SimulationTime)
    (method : JString) : Unfinished dir time 1 (m.tryOpenLogs time method) := by
  obtain ⟨m₁, hread, hlog₁, hdir₁⟩ : ∃ m₁,
      ((m.initCollisionLog time).openAsWrite time method).openAsRead = .ok m₁ ∧
        m₁.collisionLog = some (.new time) ∧ m₁.tmpdir = some dir :=
    ⟨_, openAsRead_eq fun h hh ↦ Disk.isSome_foldl_modify _ _ (.inr ⟨h, hh, rfl⟩), rfl, hdir⟩
  obtain ⟨disk, hopen, hcol, -⟩ := openCollisionLogs_eq hlog₁
  rw [collisionLogPath, pathOf_eq hdir₁] at hcol
  have hlogs : m.openLogs time method = .ok { m₁ with
      collisionLog := some (openedCollisionLog time)
      collisionOut := true
      collisionIn := true
      disk } := by
    rw [openLogs, hread]
    exact hopen
  rw [tryOpenLogs, hlogs]
  exact ⟨hdir₁, hcol, _, rfl, le_rfl⟩

theorem Unfinished.appendFile (h : Unfinished dir time n m) {path : JString}
    (hpath : m.collisionLogPath ≠ path) (bs : Bytes) :
    Unfinished dir time n (m.appendFile path bs) := by
  refine ⟨h.tmpdir, ?_, h.collisionLog⟩
  rw [h.collisionLogPath_eq] at hpath
  exact (Disk.modify_of_ne m.disk hpath (· ++ bs)).trans h.collisionLogFile

variable {F D : Type} [JavaFloat F] [JavaDouble D] [JavaCasts F D] [AxisAngles D]

theorem Unfinished.tryPut (h : Unfinished dir time n m) (r : JString × List F) :
    Unfinished dir time n (m.tryPut r) := by
  rw [LogManager.tryPut, put]
  rcases m.headerOf r.1 with - | header
  · exact h
  dsimp only
  split_ifs
  · exact h
  · exact h
  · have happend := h.appendFile (m.getTempFilePath_ne_collisionLogPath r.1).symm
      (r.2.flatMap writeFloat)
    exact ⟨happend.tmpdir, happend.collisionLogFile, happend.collisionLog⟩

omit [AxisAngles D] in
theorem Unfinished.tryPutCollisionPointData (h : Unfinished dir time n m)
    (data : List (CollisionPoint D)) :
    Unfinished dir time (n + 1) (m.tryPutCollisionPointData F data) := by
  obtain ⟨c, hc, hlen⟩ := h.collisionLog
  have happend := h.appendFile m.collisionLogPath_ne_collisionLogDatPath
    (data.flatMap (pointBytes F))
  rw [LogManager.tryPutCollisionPointData, putCollisionPointData, hc]
  split_ifs
  · exact h.mono n.le_succ
  refine ⟨happend.tmpdir, happend.collisionLogFile, _, rfl, ?_⟩
  rw [List.length_append, List.length_singleton]
  omega

/-- A world state adds at most one offset. -/
theorem leads_toLogFile (storeAllPos : Bool) (newStat : WorldStateEx D) :
    Stateful.Leads (fun b : LogBuffer F ↦ Unfinished dir time n b.temp)
      (LogBuffer.toLogFile storeAllPos newStat) fun b ↦ Unfinished dir time (n + 1) b.temp := by
  have hwrite (m : LogManager) (hm : Unfinished dir time n m) :
      Unfinished dir time (n + 1) (LogBuffer.writeCollisions (F := F) newStat m) := by
    have hm' : Unfinished dir time n (m.setTime (LogBuffer.logTime F newStat.time)) :=
      ⟨hm.tmpdir, hm.collisionLogFile, hm.collisionLog⟩
    rw [LogBuffer.writeCollisions]
    split
    · exact hm'.mono n.le_succ
    · exact hm'.mono n.le_succ
    · exact hm'.tryPutCollisionPointData _
  refine .bind (.modify fun b hb ↦ hwrite b.temp hb) (fun _ hb ↦ hb) fun _ ↦ .forM fun p _ ↦ ?_
  refine .get_bind fun b hb ↦ ?_
  split
  · exact .throw _ fun _ hb ↦ hb
  split
  · exact .throw _ fun _ hb ↦ hb
  refine .bind (.modify fun _ hb ↦ hb) (fun _ hb ↦ hb) fun _ ↦ ?_
  split
  · exact .throw _ fun _ hb ↦ hb
  · exact .modify fun _ hb ↦ hb.tryPut _

theorem leads_restoreValues (storeAllPos : Bool) :
    ∀ (l : List (TValue D)) (n : ℕ), Stateful.Leads
      (fun b : LogBuffer F ↦ Unfinished dir time n b.temp)
      (WorldStateItem.restoreValues storeAllPos l)
      fun b ↦ Unfinished dir time (n + (l.takeWhile (·.value.isSome)).length) b.temp
  | [], n => .pure _ fun _ hb ↦ hb
  | ⟨t, none⟩ :: rest, n => .pure _ fun _ hb ↦ hb
  | ⟨t, some val⟩ :: rest, n => by
    have hrest := leads_restoreValues storeAllPos rest (n + 1)
    refine .bind (leads_toLogFile storeAllPos val) (fun _ hb ↦ hb.mono ?_) fun _ ↦
      hrest.mono fun _ hb ↦ hb.mono ?_
    · rw [List.takeWhile_cons_of_pos rfl, List.length_cons]
      omega
    · rw [List.takeWhile_cons_of_pos rfl, List.length_cons]
      omega

omit [JavaFloat F] [JavaDouble D] [JavaCasts F D] [AxisAngles D] in
theorem leads_copyRest (src : JString) {dest : JString}
    (hdest : dir ++ SEPARATOR ++ COLLISION_LOG_NAME ≠ dest) :
    ∀ (rounds pos : ℕ) (left : ℤ), Stateful.Leads (Unfinished dir time n)
      (copyRest src dest rounds pos left) (Unfinished dir time n)
  | 0, _, _ => .pure _ fun _ hm ↦ hm
  | rounds + 1, pos, left => by
    rw [copyRest]
    split_ifs
    · exact .pure _ fun _ hm ↦ hm
    refine .get_bind fun m _ ↦ ?_
    dsimp only
    split_ifs
    · exact .throw _ fun _ hm ↦ hm
    · exact .bind (.modify fun _ hm ↦ hm.appendFile (hm.collisionLogPath_eq ▸ hdest) _)
        (fun _ hm ↦ hm) fun _ ↦ leads_copyRest src hdest rounds _ _

theorem leads_jointObject (h : LogHeader) : Stateful.Leads (Unfinished dir time n)
    (jointObject h) (Unfinished dir time n) := by
  refine .get_bind fun m hm ↦ ?_
  dsimp only
  split
  · exact .throw _ fun _ hm ↦ hm
  split
  · exact .throw _ fun _ hm ↦ hm
  refine .bind (.modify fun m hm ↦ ⟨hm.tmpdir, hm.collisionLogFile, hm.collisionLog⟩)
    (fun _ hm ↦ hm) fun _ ↦ ?_
  split
  · exact .throw _ fun _ hm ↦ hm
  · refine leads_copyRest _ ?_ _ _ _
    rw [← hm.collisionLogPath_eq]
    exact (m.getTempFilePath_ne_collisionLogPath _).symm

theorem leads_jointCollisionDat : Stateful.Leads (Unfinished dir time n)
    jointCollisionDat (Unfinished dir time n) := by
  refine .get_bind fun m hm ↦ ?_
  dsimp only
  split
  · exact .throw _ fun _ hm ↦ hm
  split_ifs
  · exact .throw _ fun _ hm ↦ hm
  · refine leads_copyRest _ ?_ _ _ _
    rw [← hm.collisionLogPath_eq]
    exact m.collisionLogPath_ne_collisionLogDatPath

omit [AxisAngles D] in
/-- The header of a collision log that has been opened has no offset but the first. -/
theorem length_position_of_openedCollisionLog {c : CollisionLogHeader} {rest : Bytes}
    (hrun : (CollisionLogHeader.input D).run (openedCollisionLog time).createLogHeader =
      .ok (c, rest)) : c.position.length ≤ 1 := by
  have hh : (openedCollisionLog time).Encodable :=
    { headerSize := show IsInt (64 + 4) by decide
      totalTime := time.totalTime.isLong_getUtime
      startTime := time.startTime.isLong_getUtime
      endTime := show IsLong 0 from ⟨by norm_num, by norm_num⟩
      timeStep := time.timeStep.isLong_getUtime }
  rw [CollisionLogHeader.createLogHeader, CollisionLogHeader.run_input D hh] at hrun
  exact CollisionLogHeader.length_position_le_of_inputPositions
    (fun p hp ↦ List.mem_singleton.mp hp ▸ by decide) hrun

theorem length_position_join {c ref : CollisionLogHeader} (hc : c.position.length ≤ n)
    (href : ref.position.length ≤ 1) : (c.joinCollisionLogHeader ref).position.length ≤ n := by
  rw [CollisionLogHeader.joinCollisionLogHeader]
  split_ifs
  · exact hc
  · rw [List.length_append, List.length_map, List.length_tail]
    omega

section

omit [AxisAngles D]

theorem leads_jointCollisionLog : Stateful.Leads (Unfinished dir time n)
    (jointCollisionLog D) (Unfinished dir time n) := by
  refine .get_bind fun m hm ↦ ?_
  have hfile : m.disk (m.entryPath COLLISION_LOG_NAME) =
      some (openedCollisionLog time).createLogHeader := by
    rw [entryPath, hm.tmpdir]
    exact hm.collisionLogFile
  obtain ⟨c, hc, hlen⟩ := hm.collisionLog
  split
  · exact .throw _ fun _ hm ↦ hm
  next file hfile' =>
    split
    · exact .throw _ fun _ hm ↦ hm
    next ref rest hrun =>
      rw [← Option.some.inj (hfile.symm.trans hfile')] at hrun
      have href := length_position_of_openedCollisionLog hrun
      rw [hc]
      exact .modify fun m hm ↦
        ⟨hm.tmpdir, hm.collisionLogFile, _, rfl, length_position_join hlen href⟩

/-- Joining the logs of the directory itself adds no offset. -/
theorem leads_jointLogs : Stateful.Leads (Unfinished dir time n) (jointLogs D)
    (Unfinished dir time n) :=
  .get_bind fun _ _ ↦ .bind (.forM fun h _ ↦ leads_jointObject h) (fun _ hm ↦ hm) fun _ ↦
    .bind leads_jointCollisionLog (fun _ hm ↦ hm) fun _ ↦ leads_jointCollisionDat

end

/-- Closing the files of the objects. -/
theorem Unfinished.closeAsWrite (h : Unfinished dir time n m) :
    Unfinished dir time n m.closeAsWrite := by
  rw [LogManager.closeAsWrite]
  split
  · exact h
  refine ⟨h.tmpdir, ?_, h.collisionLog⟩
  refine (Disk.foldl_modify_of_ne _ _ fun h' _ ↦ ?_).trans h.collisionLogFile
  rw [← h.collisionLogPath_eq]
  exact (m.getTempFilePath_ne_collisionLogPath _).symm

theorem length_createLogHeader (c : CollisionLogHeader) :
    c.createLogHeader.length = 64 + 4 * c.position.length := by
  rw [CollisionLogHeader.createLogHeader, List.length_append, CollisionLogHeader.length_fixedPart,
    CollisionLogHeader.length_positions, FIXED_PART_SIZE]

/-- The collision log of a directory has no more than a number of offsets. -/
def AtMostOffsets (dir : JString) (n : ℕ) (disk : Disk) : Prop :=
  ∃ bs, disk (dir ++ SEPARATOR ++ COLLISION_LOG_NAME) = some bs ∧ bs.length ≤ 64 + 4 * n

theorem Unfinished.atMostOffsets (h : Unfinished dir time n m) (hn : 1 ≤ n) :
    AtMostOffsets dir n m.disk := by
  refine ⟨_, h.collisionLogFile, ?_⟩
  rw [length_createLogHeader, openedCollisionLog, List.length_singleton]
  omega

/-- A file that has just been opened, after its header has been patched. -/
theorem length_outPositions (c : CollisionLogHeader) (time : SimulationTime) :
    (c.outPositions (c.outTimesAndRecalculation (openedCollisionLog time).createLogHeader)).length =
      max 68 (64 + 4 * c.position.length) := by
  rw [CollisionLogHeader.outPositions, length_overwrite,
    CollisionLogHeader.outTimesAndRecalculation,
    length_overwrite, length_createLogHeader, CollisionLogHeader.length_positions, FIXED_PART_SIZE,
    openedCollisionLog, List.length_singleton]
  simp

/-- Closing the collision log writes the offsets. -/
theorem Unfinished.atMostOffsets_close (h : Unfinished dir time n m) (hn : 1 ≤ n) {m' : LogManager}
    (hclose : m.closeCollisionLogAsWrite = .ok m') : AtMostOffsets dir n m'.disk := by
  obtain ⟨c, hc, hlen⟩ := h.collisionLog
  rw [closeCollisionLogAsWrite, hc] at hclose
  split at hclose
  · obtain rfl := Except.ok.inj hclose
    exact h.atMostOffsets hn
  dsimp only at hclose
  obtain ⟨c', hc', hposition⟩ : ∃ c', c' = { c with endTime := m.time.getUtime } ∧
    c'.position = c.position := ⟨_, rfl, rfl⟩
  rw [← hc'] at hclose
  obtain rfl := Except.ok.inj hclose
  have hfile : (m.disk.modify m.collisionLogPath fun file ↦
      c'.outPositions (c'.outTimesAndRecalculation file))
        (dir ++ SEPARATOR ++ COLLISION_LOG_NAME) =
      some (c'.outPositions
        (c'.outTimesAndRecalculation (openedCollisionLog time).createLogHeader)) := by
    rw [h.collisionLogPath_eq, Disk.modify_self, h.collisionLogFile, Option.getD_some]
  have hlength := length_outPositions c' time
  rw [hposition] at hlength
  exact ⟨_, hfile, by omega⟩

end Unfinished

end LogManager

namespace WorldStateItem

variable {F D : Type} [JavaFloat F] [JavaDouble D] [JavaCasts F D] [AxisAngles D]

/-- The files of a directory hold the frames of a log. -/
structure HoldsFrames (dir : JString) (objects : List LogObject) (frames : List (Frame F D))
    (disk : Disk) : Prop where
  objectFile : ∀ o ∈ objects, ∃ h : LogHeader,
    (h.objectName = o.objectName ∧ h.dataFormat = o.format ∧ h.numRecords = frames.length) ∧
      disk (dir ++ SEPARATOR ++ (o.objectName ++ POSTFIX)) =
        some (h.output ++ frames.flatMap fun f ↦ (f.recordOf o.objectName).flatMap writeFloat)
  collisionLogFile : ∃ c : CollisionLogHeader, c.position = LogManager.positions frames ∧
    disk (dir ++ SEPARATOR ++ COLLISION_LOG_NAME) = some c.createLogHeader
  collisionLogDatFile : disk (dir ++ SEPARATOR ++ COLLISION_LOG_DAT_NAME) =
    some ((frames.flatMap Frame.points).flatMap (pointBytes F))

/-- The first values of an item are in memory, and the others, of which there are some, in the files
of a log. -/
structure PartlySpilled (k : ℕ) (item : WorldStateItem F D) : Prop where
  useDisk : item.useDisk = false
  changePos : item.changePos = k
  one_le : 1 ≤ k
  lt : k < item.log.length
  inMemory : ∀ tv ∈ item.log.take k, tv.value.isSome = true
  inLog : ∀ tv ∈ item.log.drop k, tv.value = none
  preStat : item.preStat.isSome = true

variable {item : WorldStateItem F D}

omit [JavaFloat F] [JavaDouble D] [JavaCasts F D] [AxisAngles D] in
theorem PartlySpilled.length_takeWhile {k : ℕ} (h : item.PartlySpilled k) :
    (item.log.takeWhile (·.value.isSome)).length = k := by
  have hlt := h.lt
  have hnull : item.log[k].value.isSome = false := by
    have hmem : item.log[k] ∈ item.log.drop k := by
      rw [List.drop_eq_getElem_cons h.lt]
      exact .head _
    rw [h.inLog _ hmem, Option.isSome_none]
  rw [← List.take_append_drop k item.log, List.takeWhile_append_of_pos h.inMemory,
    List.drop_eq_getElem_cons h.lt, List.takeWhile_cons_of_neg (by simpa using hnull),
    List.append_nil, List.length_take_of_le h.lt.le]

/-- Whatever is thrown, the collision log that is left behind has an offset for every value that was
in memory, and one more. -/
theorem PartlySpilled.atMostOffsets {k : ℕ} (h : item.PartlySpilled k) :
    LogManager.AtMostOffsets (item.tempDirBase ++ item.name) (k + 1)
      item.restoreSpilled.2.disk := by
  obtain ⟨preStat, hpre⟩ := Option.isSome_iff_exists.mp h.preStat
  obtain ⟨first, rest, hlog⟩ := List.exists_cons_of_length_pos (Nat.zero_lt_of_lt h.lt)
  have hopen := LogManager.unfinished_tryOpenLogs
    (m := item.logger.closeWrites.newTemp (item.tempDirBase ++ item.name)) rfl
    (item.simulationTime first.time) item.method
  have hvalues := LogManager.leads_restoreValues (F := F) item.storeAllPos item.log 1
    ⟨(item.logger.closeWrites.newTemp (item.tempDirBase ++ item.name)).tryOpenLogs
      (item.simulationTime first.time) item.method, item.recDat⟩ hopen
  rw [h.length_takeWhile, Nat.add_comm, hlog] at hvalues
  rw [restoreSpilled, hpre, hlog]
  dsimp only
  generalize (item.logger.closeWrites.newTemp (item.tempDirBase ++ item.name)).tryOpenLogs
    (item.simulationTime first.time) item.method = temp at hvalues
  rcases hrun : (restoreValues item.storeAllPos (first :: rest)).runOn ⟨temp, item.recDat⟩ with
    ⟨e | u, b⟩
  · rw [hrun] at hvalues
    exact hvalues.atMostOffsets k.succ_pos
  rw [hrun] at hvalues
  dsimp only
  have hjoint := LogManager.leads_jointLogs (D := D) b.temp hvalues
  rcases hrun' : (LogManager.jointLogs D).runOn b.temp with ⟨e | u, m⟩
  · rw [hrun'] at hjoint
    exact hjoint.atMostOffsets k.succ_pos
  rw [hrun'] at hjoint
  dsimp only
  generalize Time.ofSeconds ((Time.ofSeconds preStat.time).getDouble D) = currentTime
  have hset : LogManager.Unfinished (item.tempDirBase ++ item.name)
      (item.simulationTime first.time) (k + 1) (m.setTime currentTime) :=
    ⟨hjoint.tmpdir, hjoint.collisionLogFile, hjoint.collisionLog⟩
  rcases hclose : (m.setTime currentTime).closeAsWrite.closeCollisionLogAsWrite with e | m'
  · exact hset.closeAsWrite.atMostOffsets k.succ_pos
  · exact hset.closeAsWrite.atMostOffsets_close k.succ_pos hclose

/-- A log that is partly in files is not saved: the offsets of its frames are not all in the
collision log that is left behind. -/
theorem not_holdsFrames_restoreSpilled {k : ℕ} {item : WorldStateItem F D}
    (h : item.PartlySpilled k) (objects : List LogObject) {frames : List (Frame F D)}
    (hframes : frames.length = item.log.length) :
    ¬ HoldsFrames (item.tempDirBase ++ item.name) objects frames item.restoreSpilled.2.disk := by
  intro hholds
  obtain ⟨bs, hbs, hlen⟩ := h.atMostOffsets
  obtain ⟨c, hc, hfile⟩ := hholds.collisionLogFile
  have hlt := h.lt
  rw [← Option.some.inj (hfile.symm.trans hbs), LogManager.length_createLogHeader, hc,
    LogManager.length_positions, hframes] at hlen
  omega

/-! ### The log of a body that touches itself -/

/-- The body at the origin, with a collision. -/
def touchingState (time : BitVec 64) : WorldStateEx (BitVec 64) :=
  { boxState time with
    collisions := some [some [{ position := fun _ ↦ 0, normal := fun _ ↦ 0, idepth := 0 }]] }

/-- The memory is short at the second of three times. -/
def touchingAdditions : List (Addition (BitVec 64)) :=
  [⟨0, touchingState 0, HEAP_MEMORY_TOLERANCE⟩,
   ⟨0x3FE0000000000000, touchingState 0x3FE0000000000000, 0⟩,
   ⟨0x3FF0000000000000, touchingState 0x3FF0000000000000, 0⟩]

/-- The item after the values have been added. -/
def touchingItem : WorldStateItem (BitVec 32) (BitVec 64) :=
  match boxItem.addValues touchingAdditions with
  | .ok item => item
  | .error _ => boxItem

/-- What is logged of the body at a time, and with it the number of the time. -/
def touchingFrame (time : BitVec 64) (number : BitVec 32) : Frame (BitVec 32) (BitVec 64) where
  time := LogBuffer.logTime (BitVec 32) time
  collisions := [some [{ position := fun _ ↦ 0, normal := fun _ ↦ 0, idepth := 0 }]]
  records := [("box".toList, [number, 0, 0, 0, 0, 0x3F800000, 0, 0])]

def touchingFrames : List (Frame (BitVec 32) (BitVec 64)) :=
  [touchingFrame 0 0, touchingFrame 0x3FE0000000000000 0x3F000000,
   touchingFrame 0x3FF0000000000000 0x3F800000]

theorem partlySpilled_touchingItem : touchingItem.PartlySpilled 1 where
  useDisk := by decide +kernel
  changePos := by decide +kernel
  one_le := le_rfl
  lt := by decide +kernel
  inMemory := by decide +kernel
  inLog := by decide +kernel
  preStat := by decide +kernel

/-- The log is not returned, and its files do not hold the frames. -/
theorem touchingItem_not_holdsFrames :
    (match touchingItem.restoreSpilled.1 with
      | .ok none => true
      | _ => false) = true ∧
    ¬ HoldsFrames (touchingItem.tempDirBase ++ touchingItem.name) [boxObject] touchingFrames
      touchingItem.restoreSpilled.2.disk := by
  refine ⟨by decide +kernel, fun hholds ↦ ?_⟩
  obtain ⟨bs, hbs, hlen⟩ := partlySpilled_touchingItem.atMostOffsets
  obtain ⟨c, hc, hfile⟩ := hholds.collisionLogFile
  rw [← Option.some.inj (hfile.symm.trans hbs), LogManager.length_createLogHeader, hc,
    LogManager.length_positions] at hlen
  exact absurd hlen (by decide +kernel)

theorem not_holdsFrames_touchingItem :
    ¬ HoldsFrames (touchingItem.tempDirBase ++ touchingItem.name) [boxObject] touchingFrames
      touchingItem.restoreSpilled.2.disk :=
  not_holdsFrames_restoreSpilled partlySpilled_touchingItem [boxObject] (by decide +kernel)

end WorldStateItem

end OpenHRP
