import OpenHRP.GrxUI.LogManager
import Mathlib.Data.List.Nodup

/-!
# Recording a log

A simulation is recorded frame by frame, as `GrxWorldStateItem._toLogFile` does: every object puts a
record, and the collision points of the frame are put when it has a collision sequence. What the
files hold after any number of frames is `Recording`; each frame keeps it (`Recording.toLogFile`).
-/

namespace OpenHRP

/-- An object of the log that has been accepted, with its header. -/
structure LogObject where
  objectName : JString
  format : List JString
  header : LogHeader
  new_eq : LogHeader.new objectName format = .ok header
  isAscii : ∀ s ∈ objectName :: format, IsAscii s
  isInt_headerSize : IsInt (LogHeader.headerSizeOf objectName format)

theorem LogObject.header_eq (o : LogObject) :
    ∃ unitSize, unitSizes o.format = .ok unitSize ∧ o.header =
      { version := []
        headerSize := toInt (LogHeader.headerSizeOf o.objectName o.format)
        totalTime := 0
        startTime := 0
        endTime := 0
        timeStep := 0
        method := 0
        recordSize := toInt (recordLength o.format unitSize * FLOAT_DATA_SIZE)
        numRecords := 0
        objectName := o.objectName
        dataFormat := o.format
        unitSize } := by
  have h := o.new_eq
  rw [LogHeader.new] at h
  rcases hu : unitSizes o.format with e | unitSize
  · rw [hu] at h
    cases h
  · rw [hu] at h
    exact ⟨unitSize, rfl, (Except.ok.inj h).symm⟩

theorem LogObject.header_objectName (o : LogObject) : o.header.objectName = o.objectName := by
  obtain ⟨unitSize, -, h⟩ := o.header_eq
  rw [h]

theorem LogObject.recordSize_eq (o : LogObject) {n : ℕ}
    (hn : (n : ℤ) = o.header.recordSize.tdiv FLOAT_DATA_SIZE) :
    o.header.recordSize = 4 * n := by
  obtain ⟨unitSize, -, ho⟩ := o.header_eq
  have hdvd : (4 : ℤ) ∣ o.header.recordSize := by
    rw [ho]
    exact dvd_toInt (by norm_num) (Dvd.intro_left _ rfl)
  obtain ⟨k, hk⟩ := hdvd
  rw [hk, FLOAT_DATA_SIZE, Int.mul_tdiv_cancel_left _ (by norm_num)] at hn
  rw [hk, hn]

/-- The format of the records of a body of one link. -/
def boxFormat : List JString :=
  ["time", "float", "WAIST.translation", "float[3]", "WAIST.rotation", "float[4]"].map String.toList

def boxHeader : LogHeader where
  version := []
  headerSize := 130
  totalTime := 0
  startTime := 0
  endTime := 0
  timeStep := 0
  method := 0
  recordSize := 32
  numRecords := 0
  objectName := "box".toList
  dataFormat := boxFormat
  unitSize := [0, 3, 4]

theorem new_boxFormat : LogHeader.new "box".toList boxFormat = .ok boxHeader := by
  have hunit : unitSizes boxFormat = .ok [0, 3, 4] := by decide +kernel
  have hheader : LogHeader.headerSizeOf "box".toList boxFormat = 130 := by decide +kernel
  have hrecord : recordLength boxFormat [0, 3, 4] * FLOAT_DATA_SIZE = 32 := by decide +kernel
  rw [LogHeader.new, hunit, hheader, toInt_of_isInt (by decide)]
  change Except.ok _ = _
  rw [hrecord, toInt_of_isInt (by decide)]
  rfl

/-- A body of one link. -/
def boxObject : LogObject where
  objectName := "box".toList
  format := boxFormat
  header := boxHeader
  new_eq := new_boxFormat
  isAscii := by decide +kernel
  isInt_headerSize := by decide +kernel

/-- What is logged of a world state: the time, the points of every collision that has them, and a
record for every character. -/
structure Frame (F D : Type) where
  time : Time
  collisions : List (Option (List (CollisionPoint D)))
  records : List (JString × List F)

namespace Frame

variable {F D : Type}

/-- The collision points of the frame. -/
def points (f : Frame F D) : List (CollisionPoint D) :=
  f.collisions.flatMap (·.getD [])

/-- The record of an object. -/
def recordOf (f : Frame F D) (objectName : JString) : List F :=
  ((f.records.find? (·.1 = objectName)).map Prod.snd).getD []

theorem recordOf_eq {f : Frame F D} (hkeys : (f.records.map Prod.fst).Nodup)
    {r : JString × List F} (hr : r ∈ f.records) : f.recordOf r.1 = r.2 := by
  rw [recordOf, find?_key_eq_some hkeys hr]
  rfl

/-- A frame has one record of every object, of its length. -/
structure Complete (objects : List LogObject) (f : Frame F D) : Prop where
  keys : (f.records.map Prod.fst).Perm (objects.map LogObject.objectName)
  length : ∀ o ∈ objects, ((f.recordOf o.objectName).length : ℤ) =
    o.header.recordSize.tdiv FLOAT_DATA_SIZE

end Frame

namespace LogManager

/-! ### Frames -/

section Frames

variable {F D : Type}

/-- The frames that have a collision sequence. -/
def sequences (fs : List (Frame F D)) : List (Frame F D) :=
  fs.filter fun f ↦ !f.collisions.isEmpty

/-- The number of collision points of some frames. -/
def pointCount (fs : List (Frame F D)) : ℕ :=
  (fs.flatMap Frame.points).length

/-- The offsets where some frames start, and where the last one ends. -/
def positions (fs : List (Frame F D)) : List ℤ :=
  (List.range (fs.length + 1)).map fun i ↦ toInt (pointCount (fs.take i) * COLLISION_DATA_SIZE)

/-- The header of the collision log after frames that have collision sequences. -/
def recordedCollisionLog (time : SimulationTime) (fs : List (Frame F D)) : CollisionLogHeader :=
  { CollisionLogHeader.new time with
    currentPos := toInt (pointCount fs * COLLISION_DATA_SIZE)
    position := positions fs
    numRecords := toInt fs.length }

/-- The header of a collision log that has just been opened. -/
def openedCollisionLog (time : SimulationTime) : CollisionLogHeader :=
  { CollisionLogHeader.new time with currentPos := 0, position := [0], numRecords := 0 }

/-- The header of an object after a number of frames. -/
def recordedHeader (time : SimulationTime) (method : JString) (n : ℕ) (o : LogObject) :
    LogHeader :=
  { openHeader time method o.header with numRecords := toInt n }

theorem recordedHeader_zero (time : SimulationTime) (method : JString) (o : LogObject) :
    recordedHeader time method 0 o = openHeader time method o.header := by
  rw [recordedHeader, Nat.cast_zero, toInt_zero]
  rfl

/-- The header of an object after the log has been closed. -/
def closedHeader (time : SimulationTime) (method : JString) (n : ℕ) (endTime : ℤ) (o : LogObject) :
    LogHeader :=
  (openHeader time method o.header).finished endTime (toInt n)

/-- The header of the collision log after it has been closed. -/
def closedCollisionLog (time : SimulationTime) (fs : List (Frame F D)) (endTime : ℤ) :
    CollisionLogHeader :=
  { recordedCollisionLog time fs with endTime }

theorem closedHeader_objectName (time : SimulationTime) (method : JString) (n : ℕ) (endTime : ℤ)
    (o : LogObject) : (closedHeader time method n endTime o).objectName = o.objectName :=
  o.header_objectName

theorem length_positions (fs : List (Frame F D)) : (positions fs).length = fs.length + 1 := by
  rw [positions, List.length_map, List.length_range]

theorem recordedCollisionLog_nil (time : SimulationTime) :
    recordedCollisionLog time ([] : List (Frame F D)) = openedCollisionLog time := by
  simp [recordedCollisionLog, openedCollisionLog, pointCount, positions, toInt_zero]

theorem recordedHeader_objectName (time : SimulationTime) (method : JString) (n : ℕ)
    (o : LogObject) : (recordedHeader time method n o).objectName = o.objectName :=
  o.header_objectName

theorem pointCount_concat (fs : List (Frame F D)) (f : Frame F D) :
    pointCount (fs ++ [f]) = pointCount fs + f.points.length := by
  simp [pointCount]

theorem isInt_of_mem_positions {p : ℤ} (hp : p ∈ positions fs) : IsInt p := by
  obtain ⟨i, -, rfl⟩ := List.mem_map.mp hp
  exact isInt_toInt _

theorem encodable_closedCollisionLog (time : SimulationTime) {endTime : ℤ} (hend : IsLong endTime)
    (fs : List (Frame F D)) :
    (closedCollisionLog time fs endTime).recalculated.Encodable where
  headerSize := show IsInt (64 + 4) by decide
  totalTime := isLong_toLong _
  startTime := time.startTime.isLong_getUtime
  endTime := hend
  timeStep := time.timeStep.isLong_getUtime

theorem positions_concat (fs : List (Frame F D)) (f : Frame F D) :
    positions (fs ++ [f]) =
      positions fs ++ [toInt (pointCount (fs ++ [f]) * COLLISION_DATA_SIZE)] := by
  have hlen : (fs ++ [f]).length = fs.length + 1 := by simp
  have hmap : (List.range (fs.length + 1)).map (fun i ↦
      toInt (pointCount ((fs ++ [f]).take i) * COLLISION_DATA_SIZE)) = positions fs := by
    refine List.map_congr_left fun i hi ↦ ?_
    rw [List.take_append_of_le_length (Nat.le_of_lt_succ (List.mem_range.mp hi))]
  rw [positions, hlen, List.range_succ, List.map_append, List.map_singleton,
    List.take_of_length_le hlen.le, hmap]

variable {f : Frame F D}

theorem sequences_concat_of_ne_nil (fs : List (Frame F D))
    (hf : f.collisions ≠ []) : sequences (fs ++ [f]) = sequences fs ++ [f] := by
  simp [sequences, List.filter_append, hf]

theorem sequences_concat_of_eq_nil (fs : List (Frame F D))
    (hf : f.collisions = []) : sequences (fs ++ [f]) = sequences fs := by
  simp [sequences, List.filter_append, hf]

end Frames

variable {F D : Type} [JavaFloat F] [JavaDouble D] [JavaCasts F D]

/-- Put a record, and go on where that fails. -/
def tryPut (m : LogManager) (r : JString × List F) : LogManager :=
  match m.put r.1 r.2 with
  | .ok m => m
  | .error _ => m

variable (F) in
/-- Put collision points, and go on where that fails. -/
def tryPutCollisionPointData (m : LogManager) (data : List (CollisionPoint D)) : LogManager :=
  match m.putCollisionPointData F data with
  | .ok m => m
  | .error _ => m

/-- `_toLogFile`. -/
def toLogFile (m : LogManager) (f : Frame F D) : LogManager :=
  let m := m.setTime f.time
  let m := if f.collisions = [] then m else m.tryPutCollisionPointData F f.points
  f.records.foldl tryPut m

/-- Register the objects of a log. -/
def addLogObjects (m : LogManager) (objects : List LogObject) : Except LogException LogManager :=
  objects.foldlM (fun m o ↦ m.addLogObject o.objectName o.format) m

/-- Open the logs as `_initLog` does. -/
def openLogs (m : LogManager) (time : SimulationTime) (method : JString) :
    Except LogException LogManager := do
  let m ← ((m.initCollisionLog time).openAsWrite time method).openAsRead
  let m ← m.openCollisionLogAsWrite
  m.openCollisionLogAsRead

/-- Record frames in logs that are opened before and closed afterwards. -/
def recordLog (m : LogManager) (time : SimulationTime) (method : JString)
    (frames : List (Frame F D)) : Except LogException LogManager := do
  let m ← m.openLogs time method
  (frames.foldl toLogFile m).closeAsWrite.closeCollisionLogAsWrite

/-! ### Paths -/

variable {m : LogManager}

theorem pathOf_eq {dir : JString} (hdir : m.tmpdir = some dir) (file : JString) :
    m.pathOf file = dir ++ SEPARATOR ++ file := by
  rw [pathOf, hdir]

theorem pathOf_injective (m : LogManager) : Function.Injective m.pathOf := by
  intro file file' h
  rcases hdir : m.tmpdir with - | dir
  · simpa [pathOf, hdir] using h
  · simpa [pathOf, hdir] using h

theorem getTempFilePath_injective (m : LogManager) : Function.Injective m.getTempFilePath :=
  fun _ _ h ↦ List.append_cancel_right (m.pathOf_injective h)

theorem getTempFilePath_ne_collisionLogPath (m : LogManager) (objectName : JString) :
    m.getTempFilePath objectName ≠ m.collisionLogPath := by
  intro h
  have hfile : objectName ++ POSTFIX = COLLISION_LOG_NAME := m.pathOf_injective h
  have hend := congrArg List.getLast? hfile
  rw [List.getLast?_append_of_ne_nil _ (by decide)] at hend
  exact absurd hend (by decide)

theorem getTempFilePath_ne_collisionLogDatPath (m : LogManager) (objectName : JString) :
    m.getTempFilePath objectName ≠ m.collisionLogDatPath := by
  intro h
  have hfile : objectName ++ POSTFIX = COLLISION_LOG_DAT_NAME := m.pathOf_injective h
  have hend := congrArg List.getLast? hfile
  rw [List.getLast?_append_of_ne_nil _ (by decide)] at hend
  exact absurd hend (by decide)

theorem collisionLogPath_ne_collisionLogDatPath (m : LogManager) :
    m.collisionLogPath ≠ m.collisionLogDatPath := by
  intro h
  have hfile : COLLISION_LOG_NAME = COLLISION_LOG_DAT_NAME := m.pathOf_injective h
  exact absurd hfile (by decide)

/-! ### Records -/

theorem headerOf_countRecord (m : LogManager) (name objectName : JString) :
    (m.countRecord name).headerOf objectName =
      (m.headerOf objectName).map fun h ↦ if h.objectName = name then h.counted else h := by
  rw [headerOf, countRecord, List.find?_map, headerOf]
  congr 2
  funext h
  rw [Function.comp_apply]
  split_ifs <;> rfl

/-- A record of the length that the header says is put. -/
theorem tryPut_eq (hwrite : m.writeFile = true) {r : JString × List F} {h : LogHeader}
    (hh : m.headerOf r.1 = some h) (hlen : (r.2.length : ℤ) = h.recordSize.tdiv FLOAT_DATA_SIZE) :
    m.tryPut r =
      (m.appendFile (m.getTempFilePath r.1) (r.2.flatMap writeFloat)).countRecord r.1 := by
  rw [tryPut, put, hh]
  simp [hlen, hwrite]

/-- The objects have headers, and their records have the lengths that these say. -/
def Fits (m : LogManager) (rs : List (JString × List F)) : Prop :=
  ∀ r ∈ rs, ∃ h, m.headerOf r.1 = some h ∧ (r.2.length : ℤ) = h.recordSize.tdiv FLOAT_DATA_SIZE

omit [JavaFloat F] in
theorem Fits.countRecord {rs : List (JString × List F)} (h : m.Fits rs)
    (name path : JString) (bs : Bytes) : ((m.appendFile path bs).countRecord name).Fits rs := by
  intro r hr
  obtain ⟨h, hh, hlen⟩ := h r hr
  have hhead : (m.appendFile path bs).headerOf r.1 = some h := hh
  rw [headerOf_countRecord, hhead]
  refine ⟨_, rfl, ?_⟩
  dsimp only
  split_ifs <;> exact hlen

/-- Records of different objects are put independently. -/
theorem foldl_tryPut (hwrite : m.writeFile = true)
    {rs : List (JString × List F)} (hkeys : (rs.map Prod.fst).Nodup) (hfits : m.Fits rs) :
    rs.foldl tryPut m =
      { m with
        header := m.header.map fun h ↦ if h.objectName ∈ rs.map Prod.fst then h.counted else h
        disk := rs.foldl (fun disk r ↦ disk.modify (m.getTempFilePath r.1)
          (· ++ r.2.flatMap writeFloat)) m.disk } := by
  induction rs generalizing m with
  | nil => simp
  | cons r rs ih =>
    obtain ⟨hr, hkeys⟩ := List.nodup_cons.mp hkeys
    obtain ⟨h, hh, hlen⟩ := hfits r (.head rs)
    have hfits' : m.Fits rs := fun q hq ↦ hfits q (.tail r hq)
    rw [List.foldl_cons, tryPut_eq hwrite hh hlen,
      ih (by exact hwrite) hkeys (hfits'.countRecord r.1 _ _)]
    have hheader : ((m.appendFile (m.getTempFilePath r.1) (r.2.flatMap writeFloat)).countRecord
        r.1).header.map (fun h ↦ if h.objectName ∈ rs.map Prod.fst then h.counted else h) =
        m.header.map fun h ↦ if h.objectName ∈ (r :: rs).map Prod.fst then h.counted else h := by
      rw [countRecord, List.map_map]
      refine List.map_congr_left fun h _ ↦ ?_
      rw [Function.comp_apply, List.map_cons]
      by_cases hname : h.objectName = r.1
      · have hnot : h.counted.objectName ∉ rs.map Prod.fst := by
          rwa [LogHeader.counted_objectName, hname]
        rw [if_pos hname, if_neg hnot, if_pos (hname ▸ List.mem_cons_self)]
      · rw [if_neg hname]
        exact if_congr (by rw [List.mem_cons, or_iff_right hname]) rfl rfl
    rw [hheader]
    rfl

/-! ### Recording -/

/-- What a manager and its files hold while a log is recorded. -/
structure Recording (dir : JString) (objects : List LogObject) (time : SimulationTime)
    (method : JString) (fs : List (Frame F D)) (m : LogManager) : Prop where
  tmpdir : m.tmpdir = some dir
  writeFile : m.writeFile = true
  collisionOut : m.collisionOut = true
  header : m.header = objects.map (recordedHeader time method fs.length)
  collisionLog : m.collisionLog = some (recordedCollisionLog time (sequences fs))
  objectFile : ∀ o ∈ objects, m.disk (m.getTempFilePath o.objectName) =
    some ((openHeader time method o.header).output ++
      fs.flatMap fun f ↦ (f.recordOf o.objectName).flatMap writeFloat)
  collisionLogFile : m.disk m.collisionLogPath =
    some (openedCollisionLog time).createLogHeader
  collisionLogDatFile : m.disk m.collisionLogDatPath =
    some ((fs.flatMap Frame.points).flatMap (pointBytes F))
  lastTime : ∀ f, fs.getLast? = some f → m.time = f.time

/-- What the files of a finished log hold. -/
structure Recorded (dir : JString) (objects : List LogObject) (time : SimulationTime)
    (method : JString) (fs : List (Frame F D)) (endTime : ℤ) (m : LogManager) : Prop where
  tmpdir : m.tmpdir = some dir
  savedEntries : m.savedEntries =
    objects.map (fun o ↦ o.objectName ++ POSTFIX) ++ [COLLISION_LOG_NAME, COLLISION_LOG_DAT_NAME]
  objectFile : ∀ o ∈ objects, m.disk (m.getTempFilePath o.objectName) =
    some ((closedHeader time method fs.length endTime o).output ++
      fs.flatMap fun f ↦ (f.recordOf o.objectName).flatMap writeFloat)
  collisionLogFile : m.disk m.collisionLogPath =
    some (closedCollisionLog time (sequences fs) endTime).recalculated.createLogHeader
  collisionLogDatFile : m.disk m.collisionLogDatPath =
    some ((fs.flatMap Frame.points).flatMap (pointBytes F))

section Step

variable {dir : JString} {objects : List LogObject} {time : SimulationTime} {method : JString}
  {fs : List (Frame F D)} {m : LogManager}

theorem tryPutCollisionPointData_eq (hout : m.collisionOut = true)
    (hlog : m.collisionLog = some (recordedCollisionLog time fs)) (f : Frame F D) :
    m.tryPutCollisionPointData F f.points =
      (m.setCollisionLog (recordedCollisionLog time (fs ++ [f]))).appendFile
        m.collisionLogDatPath (f.points.flatMap (pointBytes F)) := by
  have hpos : toInt ((recordedCollisionLog time fs).currentPos +
      f.points.length * COLLISION_DATA_SIZE) =
      toInt (pointCount (fs ++ [f]) * COLLISION_DATA_SIZE) := by
    rw [recordedCollisionLog, toInt_toInt_add, pointCount_concat, Nat.cast_add, add_mul]
  have hnum : toInt ((recordedCollisionLog time fs).numRecords + 1) =
      toInt ((fs ++ [f]).length : ℕ) := by
    rw [recordedCollisionLog, toInt_toInt_add, List.length_append, Nat.cast_add]
    rfl
  rw [tryPutCollisionPointData, putCollisionPointData, hlog, hout]
  simp only [Bool.not_true, Bool.false_eq_true, if_false, hpos, hnum]
  rw [recordedCollisionLog, recordedCollisionLog, positions_concat]

/-- The collision points of a frame are put when it has a collision sequence. -/
theorem putCollisions_eq (hout : m.collisionOut = true)
    (hlog : m.collisionLog = some (recordedCollisionLog time (sequences fs)))
    (hfile : m.disk m.collisionLogDatPath =
      some ((fs.flatMap Frame.points).flatMap (pointBytes F))) (f : Frame F D) :
    ∃ disk, (if f.collisions = [] then m else m.tryPutCollisionPointData F f.points) =
        { m with
          collisionLog := some (recordedCollisionLog time (sequences (fs ++ [f])))
          disk } ∧
      disk m.collisionLogDatPath =
        some (((fs ++ [f]).flatMap Frame.points).flatMap (pointBytes F)) ∧
      ∀ path ≠ m.collisionLogDatPath, disk path = m.disk path := by
  rcases eq_or_ne f.collisions [] with hf | hf
  · have hpoints : f.points = [] := by rw [Frame.points, hf, List.flatMap_nil]
    refine ⟨m.disk, ?_, ?_, fun _ _ ↦ rfl⟩
    · rw [if_pos hf, sequences_concat_of_eq_nil fs hf, ← hlog]
    · simp [hfile, hpoints]
  · rw [if_neg hf, sequences_concat_of_ne_nil fs hf, tryPutCollisionPointData_eq hout hlog]
    refine ⟨_, rfl, ?_, fun path hpath ↦ Disk.modify_of_ne _ hpath _⟩
    rw [Disk.modify_self]
    simp [setCollisionLog, hfile]

theorem Recording.headerOf_eq (hm : Recording dir objects time method fs m)
    (hnames : (objects.map LogObject.objectName).Nodup) {o : LogObject} (ho : o ∈ objects) :
    m.headerOf o.objectName = some (recordedHeader time method fs.length o) := by
  have hfind := find?_key_eq_some hnames ho
  rw [headerOf, hm.header, List.find?_map]
  have hkey : (fun h : LogHeader ↦ decide (h.objectName = o.objectName)) ∘
      recordedHeader time method fs.length = fun o' ↦ decide (o'.objectName = o.objectName) := by
    funext o'
    rw [Function.comp_apply, recordedHeader_objectName]
  rw [hkey, hfind]
  rfl

theorem Recording.toLogFile (hm : Recording dir objects time method fs m)
    (hnames : (objects.map LogObject.objectName).Nodup) {f : Frame F D} (hf : f.Complete objects) :
    Recording dir objects time method (fs ++ [f]) (m.toLogFile f) := by
  obtain ⟨disk, hm₁, hdat, hdisk⟩ := putCollisions_eq (m := m.setTime f.time) hm.collisionOut
    hm.collisionLog hm.collisionLogDatFile f
  have hkeys : (f.records.map Prod.fst).Nodup := hf.keys.nodup_iff.mpr hnames
  have hobject {r : JString × List F} (hr : r ∈ f.records) :
      ∃ o ∈ objects, o.objectName = r.1 :=
    List.mem_map.mp (hf.keys.subset (List.mem_map_of_mem hr))
  have hrecord {o : LogObject} (ho : o ∈ objects) : ∃ r ∈ f.records, r.1 = o.objectName :=
    List.mem_map.mp (hf.keys.symm.subset (List.mem_map_of_mem ho))
  have hfits : m.Fits f.records := by
    intro r hr
    obtain ⟨o, ho, hname⟩ := hobject hr
    refine ⟨recordedHeader time method fs.length o, hname ▸ hm.headerOf_eq hnames ho, ?_⟩
    rw [← f.recordOf_eq hkeys hr, ← hname]
    exact hf.length o ho
  have hpaths : (f.records.map fun r ↦ m.getTempFilePath r.1).Nodup := by
    have hmap := List.Nodup.map m.getTempFilePath_injective hkeys
    rwa [List.map_map] at hmap
  rw [LogManager.toLogFile]
  rw [hm₁, foldl_tryPut (by exact hm.writeFile) hkeys (by exact hfits)]
  refine ⟨hm.tmpdir, hm.writeFile, hm.collisionOut, ?_, rfl, fun o ho ↦ ?_, ?_, ?_, fun g hg ↦ ?_⟩
  · have hcounted (o : LogObject) : (recordedHeader time method fs.length o).counted =
        recordedHeader time method (fs ++ [f]).length o := by
      rw [LogHeader.counted, recordedHeader, recordedHeader, toInt_toInt_add, List.length_append,
        Nat.cast_add]
      rfl
    have hheader : (m.setTime f.time).header =
      objects.map (recordedHeader time method fs.length) := hm.header
    rw [hheader, List.map_map]
    refine List.map_congr_left fun o ho ↦ ?_
    obtain ⟨r, hr, hname⟩ := hrecord ho
    rw [Function.comp_apply, if_pos, hcounted]
    rw [recordedHeader_objectName, ← hname]
    exact List.mem_map_of_mem hr
  · obtain ⟨r, hr, hname⟩ := hrecord ho
    have hold : disk (m.getTempFilePath o.objectName) = m.disk (m.getTempFilePath o.objectName) :=
      hdisk _ (m.getTempFilePath_ne_collisionLogDatPath _)
    have hnew := Disk.foldl_modify_of_mem (fun r ↦ m.getTempFilePath r.1)
      (fun r bs ↦ bs ++ r.2.flatMap writeFloat) hpaths hr (d := disk)
    rw [hname, hold, hm.objectFile o ho, ← f.recordOf_eq hkeys hr, hname] at hnew
    rw [List.flatMap_append, List.flatMap_singleton, ← List.append_assoc]
    exact hnew
  · have hcol := Disk.foldl_modify_of_ne (fun r : JString × List F ↦ m.getTempFilePath r.1)
      (fun r bs ↦ bs ++ r.2.flatMap writeFloat) (l := f.records) (d := disk)
      fun r _ ↦ (m.getTempFilePath_ne_collisionLogPath r.1).symm
    exact hcol.trans
      ((hdisk _ m.collisionLogPath_ne_collisionLogDatPath).trans hm.collisionLogFile)
  · have hcol := Disk.foldl_modify_of_ne (fun r : JString × List F ↦ m.getTempFilePath r.1)
      (fun r bs ↦ bs ++ r.2.flatMap writeFloat) (l := f.records) (d := disk)
      fun r _ ↦ (m.getTempFilePath_ne_collisionLogDatPath r.1).symm
    exact hcol.trans hdat
  · rw [List.getLast?_concat] at hg
    exact congrArg Frame.time (Option.some.inj hg)

theorem Recording.foldl (hm : Recording dir objects time method fs m)
    (hnames : (objects.map LogObject.objectName).Nodup) :
    ∀ {frames : List (Frame F D)}, (∀ f ∈ frames, f.Complete objects) →
      Recording dir objects time method (fs ++ frames) (frames.foldl LogManager.toLogFile m) := by
  intro frames hframes
  induction frames generalizing fs m with
  | nil => rwa [List.append_nil]
  | cons f frames ih =>
    have hstep := hm.toLogFile hnames (hframes f (.head frames))
    have hrest := ih hstep fun g hg ↦ hframes g (.tail f hg)
    rwa [List.append_assoc] at hrest

/-- The files of the objects are written independently. -/
theorem foldl_modify_objectFiles (hnames : (objects.map LogObject.objectName).Nodup)
    {g : LogObject → LogHeader} (hg : ∀ o, (g o).objectName = o.objectName) (m : LogManager)
    (write : LogHeader → Bytes → Bytes) {o : LogObject} (ho : o ∈ objects) (d : Disk) :
    (objects.map g).foldl (fun d h ↦ d.modify (m.getTempFilePath h.objectName) (write h)) d
        (m.getTempFilePath o.objectName) =
      some (write (g o) ((d (m.getTempFilePath o.objectName)).getD [])) := by
  have hpaths : ((objects.map g).map fun h ↦ m.getTempFilePath h.objectName).Nodup := by
    have hmap : (objects.map g).map (fun h ↦ m.getTempFilePath h.objectName) =
        (objects.map LogObject.objectName).map m.getTempFilePath := by
      rw [List.map_map, List.map_map]
      exact List.map_congr_left fun o _ ↦ congrArg m.getTempFilePath (hg o)
    rw [hmap]
    exact List.Nodup.map m.getTempFilePath_injective hnames
  have hfile := Disk.foldl_modify_of_mem (fun h : LogHeader ↦ m.getTempFilePath h.objectName)
    write hpaths (List.mem_map_of_mem ho) (d := d)
  rwa [hg] at hfile

/-- The files of the objects are new when they have been opened. -/
theorem openAsWrite_eq (hheader : m.header = objects.map LogObject.header)
    (hnames : (objects.map LogObject.objectName).Nodup) (time : SimulationTime) (method : JString) :
    ∃ disk, m.openAsWrite time method =
        { m with
          header := objects.map (recordedHeader time method 0)
          writeFile := true
          disk } ∧
      ∀ o ∈ objects, disk (m.getTempFilePath o.objectName) =
        some (openHeader time method o.header).output := by
  have hopened : m.header.map (openHeader time method) =
      objects.map (recordedHeader time method 0) := by
    rw [hheader, List.map_map]
    exact List.map_congr_left fun o _ ↦ (recordedHeader_zero time method o).symm
  refine ⟨_, by rw [openAsWrite, hopened], fun o ho ↦ ?_⟩
  rw [foldl_modify_objectFiles hnames (recordedHeader_objectName time method 0) m
    (fun h _ ↦ h.output) ho m.disk, recordedHeader_zero]

theorem openAsRead_eq
    (h : ∀ h ∈ m.header, (m.disk (m.getTempFilePath h.objectName)).isSome = true) :
    m.openAsRead = .ok { m with readFile := true } :=
  if_pos (List.all_eq_true.mpr h)

theorem openCollisionLogAsRead_eq (hcol : (m.disk m.collisionLogPath).isSome = true)
    (hdat : (m.disk m.collisionLogDatPath).isSome = true) :
    m.openCollisionLogAsRead = .ok { m with collisionIn := true } :=
  if_pos ⟨hcol, hdat⟩

/-- The collision files are new when they have been opened. -/
theorem openCollisionLogs_eq (hlog : m.collisionLog = some (.new time)) :
    ∃ disk, (do
        let m ← m.openCollisionLogAsWrite
        m.openCollisionLogAsRead) =
        .ok { m with
          collisionLog := some (openedCollisionLog time)
          collisionOut := true
          collisionIn := true
          disk } ∧
      disk m.collisionLogPath =
        some (openedCollisionLog time).createLogHeader ∧
      disk m.collisionLogDatPath = some [] ∧
      ∀ path, path ≠ m.collisionLogPath → path ≠ m.collisionLogDatPath →
        disk path = m.disk path := by
  have hne := m.collisionLogPath_ne_collisionLogDatPath
  obtain ⟨disk, hdisk⟩ : ∃ disk, disk = (m.disk.modify m.collisionLogDatPath fun _ ↦ []).modify
      m.collisionLogPath fun _ ↦
        (openedCollisionLog time).createLogHeader := ⟨_, rfl⟩
  have hcol : disk m.collisionLogPath =
      some (openedCollisionLog time).createLogHeader := by
    rw [hdisk, Disk.modify_self]
  have hdat : disk m.collisionLogDatPath = some [] := by
    rw [hdisk, Disk.modify_of_ne _ hne.symm, Disk.modify_self]
  refine ⟨disk, ?_, hcol, hdat, fun path h h' ↦ ?_⟩
  rotate_left
  · rw [hdisk, Disk.modify_of_ne _ h, Disk.modify_of_ne _ h']
  have hopen : m.openCollisionLogAsWrite = .ok { m with
      collisionLog := some (openedCollisionLog time)
      collisionOut := true
      disk } := by
    rw [openCollisionLogAsWrite, hlog, hdisk]
    rfl
  rw [hopen]
  exact openCollisionLogAsRead_eq (Option.isSome_of_eq_some hcol) (Option.isSome_of_eq_some hdat)

/-- The logs are empty when they have just been opened. -/
theorem recording_nil (hdir : m.tmpdir = some dir)
    (hheader : m.header = objects.map LogObject.header)
    (hnames : (objects.map LogObject.objectName).Nodup) :
    ∃ m', m.openLogs time method = .ok m' ∧
      Recording dir objects time method ([] : List (Frame F D)) m' := by
  obtain ⟨disk, hopen, hfiles⟩ := openAsWrite_eq (m := m.initCollisionLog time) hheader hnames
    time method
  have hfile (o) (ho : o ∈ objects) : disk (m.getTempFilePath o.objectName) =
    some (openHeader time method o.header).output := hfiles o ho
  have hread : ((m.initCollisionLog time).openAsWrite time method).openAsRead = .ok
      { m.initCollisionLog time with
        header := objects.map (recordedHeader time method 0)
        writeFile := true
        readFile := true
        disk } := by
    rw [hopen]
    refine openAsRead_eq fun h hh ↦ ?_
    obtain ⟨o, ho, rfl⟩ := List.mem_map.mp hh
    rw [recordedHeader_objectName]
    exact Option.isSome_of_eq_some (hfile o ho)
  obtain ⟨disk', hlogs, hcol, hdat, hother⟩ := openCollisionLogs_eq
    (m := { m.initCollisionLog time with
      header := objects.map (recordedHeader time method 0)
      writeFile := true
      readFile := true
      disk }) (show _ = some (CollisionLogHeader.new time) from rfl)
  rw [openLogs, hread]
  refine ⟨_, hlogs, hdir, rfl, rfl, rfl, ?_, fun o ho ↦ ?_, hcol, hdat, by simp⟩
  · rw [sequences, List.filter_nil, recordedCollisionLog_nil]
  · rw [List.flatMap_nil, List.append_nil, ← hfile o ho]
    exact hother _ (m.getTempFilePath_ne_collisionLogPath _)
      (m.getTempFilePath_ne_collisionLogDatPath _)

theorem Recording.closeAsWrite_eq (hm : Recording dir objects time method fs m)
    (hnames : (objects.map LogObject.objectName).Nodup) :
    ∃ disk, m.closeAsWrite =
        { m with
          header := objects.map (closedHeader time method fs.length m.time.getUtime)
          writeFile := false
          disk } ∧
      (∀ o ∈ objects, disk (m.getTempFilePath o.objectName) =
        some ((closedHeader time method fs.length m.time.getUtime o).output ++
          fs.flatMap fun f ↦ (f.recordOf o.objectName).flatMap writeFloat)) ∧
      ∀ path, (∀ o ∈ objects, path ≠ m.getTempFilePath o.objectName) →
        disk path = m.disk path := by
  have hclosed : m.header.map (fun h ↦ { h with endTime := m.time.getUtime }) =
      objects.map (closedHeader time method fs.length m.time.getUtime) := by
    rw [hm.header, List.map_map]
    refine List.map_congr_left fun o _ ↦ ?_
    simp only [Function.comp_apply, recordedHeader, closedHeader, LogHeader.finished]
  refine ⟨_, by rw [closeAsWrite, hm.writeFile, if_neg (by decide), hclosed], fun o ho ↦ ?_,
    fun path hpath ↦ ?_⟩
  · rw [foldl_modify_objectFiles hnames (closedHeader_objectName time method fs.length _) m
      LogHeader.outEndTime ho, hm.objectFile o ho, Option.getD_some, closedHeader,
      LogHeader.outEndTime_output]
  · refine Disk.foldl_modify_of_ne _ _ fun h hh ↦ ?_
    obtain ⟨o, ho, rfl⟩ := List.mem_map.mp hh
    exact closedHeader_objectName time method fs.length m.time.getUtime o ▸ hpath o ho

/-- The logs are finished when they have been closed. -/
theorem Recording.close (hm : Recording dir objects time method fs m)
    (hnames : (objects.map LogObject.objectName).Nodup) :
    ∃ m', m.closeAsWrite.closeCollisionLogAsWrite = .ok m' ∧
      Recorded dir objects time method fs m.time.getUtime m' := by
  obtain ⟨disk, hclose, hfiles, hother⟩ := hm.closeAsWrite_eq hnames
  have hcol : disk m.collisionLogPath = some (openedCollisionLog time).createLogHeader :=
    (hother _ fun o _ ↦ (m.getTempFilePath_ne_collisionLogPath _).symm).trans hm.collisionLogFile
  have hdat : disk m.collisionLogDatPath = _ :=
    (hother _ fun o _ ↦ (m.getTempFilePath_ne_collisionLogDatPath _).symm).trans
      hm.collisionLogDatFile
  have hpatch := CollisionLogHeader.patch_createLogHeader
    (closedCollisionLog time (sequences fs) m.time.getUtime) (openedCollisionLog time) rfl rfl (by
      rw [closedCollisionLog, recordedCollisionLog, length_positions]
      exact Nat.succ_le_succ (Nat.zero_le _))
  obtain ⟨disk', hdisk'⟩ : ∃ disk', disk' = disk.modify m.collisionLogPath fun file ↦
      (closedCollisionLog time (sequences fs) m.time.getUtime).outPositions
        ((closedCollisionLog time (sequences fs) m.time.getUtime).outTimesAndRecalculation file) :=
    ⟨_, rfl⟩
  have hcloseCol : m.closeAsWrite.closeCollisionLogAsWrite = .ok { m with
      header := objects.map (closedHeader time method fs.length m.time.getUtime)
      writeFile := false
      collisionOut := false
      collisionLog := some (closedCollisionLog time (sequences fs) m.time.getUtime)
      disk := disk' } := by
    rw [hclose, closeCollisionLogAsWrite, hdisk']
    simp only [hm.collisionOut, hm.collisionLog]
    rfl
  have hfiles' (o) (ho : o ∈ objects) : disk' (m.getTempFilePath o.objectName) =
      some ((closedHeader time method fs.length m.time.getUtime o).output ++
        fs.flatMap fun f ↦ (f.recordOf o.objectName).flatMap writeFloat) := by
    rw [hdisk', Disk.modify_of_ne _ (m.getTempFilePath_ne_collisionLogPath _)]
    exact hfiles o ho
  have hcol' : disk' m.collisionLogPath =
      some
        (closedCollisionLog time (sequences fs) m.time.getUtime).recalculated.createLogHeader := by
    rw [hdisk', Disk.modify_self, hcol, Option.getD_some, hpatch]
  have hdat' : disk' m.collisionLogDatPath =
      some ((fs.flatMap Frame.points).flatMap (pointBytes F)) := by
    rw [hdisk', Disk.modify_of_ne _ m.collisionLogPath_ne_collisionLogDatPath.symm]
    exact hdat
  refine ⟨_, hcloseCol, hm.tmpdir, ?_, hfiles', hcol', hdat'⟩
  rw [savedEntries, List.map_map]
  refine congrArg (· ++ _) (List.map_congr_left fun o _ ↦ ?_)
  rw [Function.comp_apply, closedHeader_objectName]

theorem recordLog_eq (hdir : m.tmpdir = some dir)
    (hheader : m.header = objects.map LogObject.header)
    (hnames : (objects.map LogObject.objectName).Nodup) {frames : List (Frame F D)}
    (hframes : ∀ f ∈ frames, f.Complete objects) {last : Frame F D}
    (hlast : frames.getLast? = some last) :
    ∃ m', m.recordLog time method frames = .ok m' ∧
      Recorded dir objects time method frames last.time.getUtime m' := by
  obtain ⟨m₀, hopen, hm₀⟩ : ∃ m₀, m.openLogs time method = .ok m₀ ∧
    Recording dir objects time method ([] : List (Frame F D)) m₀ :=
      recording_nil hdir hheader hnames
  have hrec := hm₀.foldl hnames hframes
  rw [List.nil_append] at hrec
  obtain ⟨m', hclose, hm'⟩ := hrec.close hnames
  rw [hrec.lastTime last hlast] at hm'
  refine ⟨m', ?_, hm'⟩
  rw [recordLog, hopen]
  exact hclose

end Step

end LogManager

end OpenHRP
