import OpenHRP.Foundations.Literals
import OpenHRP.GrxUI.LogHeaders
import Mathlib.Data.Fin.VecNotation

/-!
# The log manager

`LogManager` writes the records of every object into a file of its own and the collision points of
all frames into a pair of files, and reads them back. The state of a manager is modelled together
with the files. What is written into a stream is in the file at once, and operations on files
succeed, except that a file that is read has to exist and may end too early.
-/

namespace OpenHRP

/-! ### Files -/

/-- The files by their paths. -/
abbrev Disk := JString → Option Bytes

/-- Write a file, from what is in it. -/
def Disk.modify (disk : Disk) (path : JString) (f : Bytes → Bytes) : Disk :=
  Function.update disk path (some (f ((disk path).getD [])))

@[simp] theorem Disk.modify_self (disk : Disk) (path : JString) (f : Bytes → Bytes) :
    disk.modify path f path = some (f ((disk path).getD [])) :=
  Function.update_self ..

@[simp] theorem Disk.modify_of_ne (disk : Disk) {path p : JString} (hp : p ≠ path)
    (f : Bytes → Bytes) : disk.modify path f p = disk p :=
  Function.update_of_ne hp ..

section Fold

variable {α : Type*} (path : α → JString) (f : α → Bytes → Bytes)

theorem Disk.foldl_modify_of_ne {p : JString} :
    ∀ {l : List α} {d : Disk}, (∀ a ∈ l, p ≠ path a) →
      l.foldl (fun d a ↦ d.modify (path a) (f a)) d p = d p
  | [], _, _ => rfl
  | a :: _, d, hp =>
    (foldl_modify_of_ne fun b hb ↦ hp b (.tail a hb)).trans
      (d.modify_of_ne (hp a (.head _)) (f a))

/-- Each of a number of different files is written once. -/
theorem Disk.foldl_modify_of_mem {a : α} :
    ∀ {l : List α} {d : Disk}, (l.map path).Nodup → a ∈ l →
      l.foldl (fun d a ↦ d.modify (path a) (f a)) d (path a) =
        some (f a ((d (path a)).getD []))
  | b :: l, d, hl, ha => by
    obtain ⟨hb, hl⟩ := List.nodup_cons.mp hl
    have hne (c) (hc : c ∈ l) : path c ≠ path b := fun h ↦ hb (h ▸ List.mem_map_of_mem hc)
    rw [List.foldl_cons]
    rcases List.mem_cons.mp ha with rfl | ha
    · rw [foldl_modify_of_ne path f fun c hc ↦ (hne c hc).symm, d.modify_self]
    · rw [foldl_modify_of_mem hl ha, d.modify_of_ne (hne a ha)]

/-- What has been written once is there. -/
theorem Disk.isSome_foldl_modify {p : JString} :
    ∀ {l : List α} {d : Disk}, (d p).isSome = true ∨ (∃ a ∈ l, path a = p) →
      (l.foldl (fun d a ↦ d.modify (path a) (f a)) d p).isSome = true
  | [], _, h => h.resolve_right fun ⟨_, ha, _⟩ ↦ absurd ha List.not_mem_nil
  | b :: l, d, h => by
    rw [List.foldl_cons]
    refine isSome_foldl_modify ?_
    rcases eq_or_ne p (path b) with rfl | hp
    · exact .inl (by rw [Disk.modify_self, Option.isSome_some])
    · rw [Disk.modify_of_ne _ hp]
      refine h.imp_right fun ⟨a, ha, hpath⟩ ↦ ⟨a, ?_, hpath⟩
      rcases List.mem_cons.mp ha with rfl | ha
      · exact absurd hpath.symm hp
      · exact ha

end Fold

/-- In a list without two equal keys an element is found by its key. -/
theorem find?_key_eq_some {α κ : Type*} [DecidableEq κ] {key : α → κ} {a : α} :
    ∀ {l : List α}, (l.map key).Nodup → a ∈ l → l.find? (fun b ↦ key b = key a) = some a
  | b :: l, hl, ha => by
    obtain ⟨hb, hl⟩ := List.nodup_cons.mp hl
    rcases List.mem_cons.mp ha with rfl | ha
    · exact List.find?_cons_of_pos (by simp)
    · have hne : key b ≠ key a := fun h ↦ hb (h ▸ List.mem_map_of_mem ha)
      rw [List.find?_cons_of_neg (by simpa using hne)]
      exact find?_key_eq_some hl ha

/-! ### Constants -/

def COLLISION_LOG_NAME : JString := "CollisionData.col".toList

def COLLISION_LOG_DAT_NAME : JString := "CollisionData.dat".toList

def POSTFIX : JString := ".tmp".toList

def SEPARATOR : JString := "/".toList

def COLLISION_DATA_SIZE : ℤ := 32

def INTEGRATION_METHOD_NAMES : List JString :=
  ["RUNGE_KUTTA".toList, "EULER".toList]

def str2IntIntegrationMethod (method : JString) : ℤ :=
  match INTEGRATION_METHOD_NAMES.findIdx? (· = method) with
  | some i => i
  | none => -1

/-! ### Collision points -/

/-- A collision point as it is reported by the simulation. -/
structure CollisionPoint (D : Type) where
  position : Fin 3 → D
  normal : Fin 3 → D
  idepth : D

/-- The bytes of a collision point. -/
def pointBytes (F : Type) {D : Type} [JavaFloat F] [JavaDouble D] [JavaCasts F D]
    (p : CollisionPoint D) : Bytes :=
  writeFloat (toFloat (p.normal 0) : F) ++ writeFloat (toFloat (p.normal 1) : F) ++
    writeFloat (toFloat (p.normal 2) : F) ++ writeFloat (toFloat (p.position 0) : F) ++
    writeFloat (toFloat (p.position 1) : F) ++ writeFloat (toFloat (p.position 2) : F) ++
    writeDouble p.idepth

/-- The header after one more record. -/
def LogHeader.counted (h : LogHeader) : LogHeader :=
  { h with numRecords := toInt (h.numRecords + 1) }

@[simp] theorem LogHeader.counted_objectName (h : LogHeader) :
    h.counted.objectName = h.objectName := rfl

/-- A log manager and the files it works on. The files of a manager are opened all together, in its
directory. -/
structure LogManager where
  header : List LogHeader
  writeFile : Bool
  readFile : Bool
  collisionLog : Option CollisionLogHeader
  time : Time
  collisionOut : Bool
  collisionIn : Bool
  tmpdir : Option JString
  disk : Disk

namespace LogManager

/-- `LogManager()`, on a disk. -/
def new (disk : Disk) : LogManager where
  header := []
  writeFile := false
  readFile := false
  collisionLog := none
  time := .zero
  collisionOut := false
  collisionIn := false
  tmpdir := none
  disk := disk

/-! ### Paths and headers -/

/-- The path of a file in the directory of the manager. -/
def pathOf (m : LogManager) (file : JString) : JString :=
  match m.tmpdir with
  | some dir => dir ++ SEPARATOR ++ file
  | none => file

def getTempFilePath (m : LogManager) (objectName : JString) : JString :=
  m.pathOf (objectName ++ POSTFIX)

def collisionLogPath (m : LogManager) : JString :=
  m.pathOf COLLISION_LOG_NAME

def collisionLogDatPath (m : LogManager) : JString :=
  m.pathOf COLLISION_LOG_DAT_NAME

def setTempDir (m : LogManager) (tmp : JString) : LogManager :=
  { m with tmpdir := some tmp }

/-- `header_.get`. -/
def headerOf (m : LogManager) (objectName : JString) : Option LogHeader :=
  m.header.find? (·.objectName = objectName)

/-- `header_.put`. -/
def putHeader (m : LogManager) (h : LogHeader) : LogManager :=
  { m with header :=
      if m.header.any (·.objectName = h.objectName) then
        m.header.map fun h' ↦ if h'.objectName = h.objectName then h else h'
      else m.header ++ [h] }

/-- Count one more record of an object. -/
def countRecord (m : LogManager) (objectName : JString) : LogManager :=
  { m with header := m.header.map fun h ↦ if h.objectName = objectName then h.counted else h }

/-- Write a file, from what is in it. -/
def modifyFile (m : LogManager) (path : JString) (f : Bytes → Bytes) : LogManager :=
  { m with disk := m.disk.modify path f }

/-- Write at the end of a file. -/
def appendFile (m : LogManager) (path : JString) (bs : Bytes) : LogManager :=
  m.modifyFile path (· ++ bs)

def setCollisionLog (m : LogManager) (c : CollisionLogHeader) : LogManager :=
  { m with collisionLog := some c }

def setCollisionOut (m : LogManager) (collisionOut : Bool) : LogManager :=
  { m with collisionOut }

def setTime (m : LogManager) (time : Time) : LogManager :=
  { m with time := time }

/-! ### Opening and closing -/

/-- Close the files that are read. -/
def closeReads (m : LogManager) : LogManager :=
  { m with readFile := false, collisionIn := false }

def init (m : LogManager) : LogManager :=
  { m.closeReads with header := [], time := .zero }

def addLogObject (m : LogManager) (objectName : JString) (format : List JString) :
    Except LogException LogManager := do
  let h ← LogHeader.new objectName format
  return m.putHeader h

def initCollisionLog (m : LogManager) (time : SimulationTime) : LogManager :=
  m.setCollisionLog (.new time)

/-- The header of a log that is opened for writing. -/
def openHeader (time : SimulationTime) (method : JString) (h : LogHeader) : LogHeader :=
  { h with
    version := currentVersion
    totalTime := time.totalTime.getUtime
    startTime := time.startTime.getUtime
    timeStep := time.timeStep.getUtime
    endTime := 0
    method := str2IntIntegrationMethod method
    numRecords := 0 }

/-- Make a new file for every object. -/
def openAsWrite (m : LogManager) (time : SimulationTime) (method : JString) : LogManager :=
  let header := m.header.map (openHeader time method)
  { m with
    header
    writeFile := true
    disk := header.foldl
      (fun disk h ↦ disk.modify (m.getTempFilePath h.objectName) fun _ ↦ h.output) m.disk }

/-- Close the files of the objects, and patch their headers. -/
def closeAsWrite (m : LogManager) : LogManager :=
  if !m.writeFile then m
  else
    let header := m.header.map fun h ↦ { h with endTime := m.time.getUtime }
    { m with
      header
      writeFile := false
      disk := header.foldl
        (fun disk h ↦ disk.modify (m.getTempFilePath h.objectName) h.outEndTime) m.disk }

def openAsRead (m : LogManager) : Except LogException LogManager :=
  if m.header.all fun h ↦ (m.disk (m.getTempFilePath h.objectName)).isSome then
    .ok { m with readFile := true }
  else .error .fileOpenFail

/-- Make new collision files. -/
def openCollisionLogAsWrite (m : LogManager) : Except LogException LogManager :=
  match m.collisionLog with
  | none => .error .nullPointer
  | some c =>
    let c := { c with currentPos := 0, position := [0], numRecords := 0 }
    .ok (((m.setCollisionLog c).setCollisionOut true).modifyFile m.collisionLogDatPath
      (fun _ ↦ []) |>.modifyFile m.collisionLogPath fun _ ↦ c.createLogHeader)

/-- Close the collision files, and patch their header. -/
def closeCollisionLogAsWrite (m : LogManager) : Except LogException LogManager :=
  if !m.collisionOut then .ok m
  else
    match m.collisionLog with
    | none => .error .nullPointer
    | some c =>
      let c := { c with endTime := m.time.getUtime }
      .ok (((m.setCollisionLog c).setCollisionOut false).modifyFile m.collisionLogPath
        fun file ↦ c.outPositions (c.outTimesAndRecalculation file))

def openCollisionLogAsRead (m : LogManager) : Except LogException LogManager :=
  if (m.disk m.collisionLogPath).isSome ∧ (m.disk m.collisionLogDatPath).isSome then
    .ok { m with collisionIn := true }
  else .error .io

/-! ### Writing -/

section Data

variable {F D : Type} [JavaFloat F] [JavaDouble D] [JavaCasts F D]

/-- Write a record of an object. -/
def put (m : LogManager) (objectName : JString) (data : List F) :
    Except LogException LogManager :=
  match m.headerOf objectName with
  | none => .error .nullPointer
  | some h =>
    if (data.length : ℤ) ≠ h.recordSize.tdiv FLOAT_DATA_SIZE then
      .error (.logFileOutput "data length error.")
    else if !m.writeFile then .error .nullPointer
    else
      .ok ((m.appendFile (m.getTempFilePath objectName) (data.flatMap writeFloat)).countRecord
        objectName)

variable (F) in
/-- Write the collision points of a frame. -/
def putCollisionPointData (m : LogManager) (data : List (CollisionPoint D)) :
    Except LogException LogManager :=
  if !m.collisionOut then .error .nullPointer
  else
    match m.collisionLog with
    | none => .error .nullPointer
    | some c =>
      let currentPos := toInt (c.currentPos + data.length * COLLISION_DATA_SIZE)
      let c := { c with
        currentPos
        position := c.position ++ [currentPos]
        numRecords := toInt (c.numRecords + 1) }
      .ok ((m.setCollisionLog c).appendFile m.collisionLogDatPath
        (data.flatMap (pointBytes F)))

/-! ### Reading -/

def getRecordNum (m : LogManager) (objectName : JString) : Except LogException ℤ :=
  match m.headerOf objectName with
  | none => .error .nullPointer
  | some h => .ok h.numRecords

/-- Read numbers until the file ends, and leave the others zero. -/
def readFloats (F : Type) [JavaFloat F] : ℕ → Bytes → List F
  | 0, _ => []
  | n + 1, bs =>
    match (readFloat F).run bs with
    | .ok (f, rest) => f :: readFloats F n rest
    | .error _ => List.replicate (n + 1) (intBitsToFloat 0)

variable (F) in
/-- Read a record of an object. -/
def get (m : LogManager) (objectName : JString) (record : ℤ) :
    Except LogException (Option (List F)) :=
  if !m.readFile then .ok none
  else
    match m.headerOf objectName with
    | none => .ok none
    | some h =>
      let pos := toLong (h.headerSize + h.recordSize * record)
      if h.recordSize.tdiv FLOAT_DATA_SIZE < 0 then .error .negativeArraySize
      else if pos < 0 then .error .io
      else
        .ok (some (readFloats F (h.recordSize.tdiv FLOAT_DATA_SIZE).toNat
          (((m.disk (m.getTempFilePath objectName)).getD []).drop pos.toNat)))

/-- `0.01`. -/
def DEFAULT_IDEPTH (D : Type) [JavaDouble D] : D :=
  longBitsToDouble 0x3F847AE147AE147B#64

variable (D) in
/-- The depth of a collision, which older files do not have. -/
def readIdepth (version : ℤ) : Reader LogException D :=
  if version ≤ 110 then pure (DEFAULT_IDEPTH D) else readDouble D

variable (F D) in
/-- Read a collision point from a file of a version. -/
def readPoint (version : ℤ) : Reader LogException (CollisionPoint D) := do
  let n₀ ← readFloat F
  let n₁ ← readFloat F
  let n₂ ← readFloat F
  let p₀ ← readFloat F
  let p₁ ← readFloat F
  let p₂ ← readFloat F
  let idepth ← readIdepth D version
  return {
    normal := ![toDouble n₀, toDouble n₁, toDouble n₂]
    position := ![toDouble p₀, toDouble p₁, toDouble p₂]
    idepth }

/-- An entry of the table of offsets. -/
def positionAt (c : CollisionLogHeader) (i : ℤ) : Except LogException ℤ :=
  if i < 0 then .error .indexOutOfBounds
  else
    match c.position[i.toNat]? with
    | some p => .ok p
    | none => .error .indexOutOfBounds

variable (F D) in
/-- Read the collision points from an offset of the data file, up to a size. -/
def readCollisionPoints (m : LogManager) (first size : ℤ) :
    Except LogException (Option (List (CollisionPoint D))) :=
  match m.header with
  | [] => .error .noSuchElement
  | h :: _ =>
    if h.version = [] then .error .nullPointer
    else
      let dataSize := if getVersion h.version ≤ 110 then 24 else COLLISION_DATA_SIZE
      if size.tmod dataSize ≠ 0 ∨ size ≤ 0 then .ok none
      else if !m.collisionIn then .error .nullPointer
      else if first < 0 then .error .io
      else do
        let (points, _) ← (readMany (readPoint F D (getVersion h.version))
          (size.tdiv dataSize).toNat).run
            (((m.disk m.collisionLogDatPath).getD []).drop first.toNat)
        return some points

variable (F D) in
/-- Read the collision points of a frame. -/
def getCollisionPointData (m : LogManager) (frameNum : ℤ) :
    Except LogException (Option (List (CollisionPoint D))) :=
  match m.collisionLog with
  | none => .error .nullPointer
  | some c =>
    if (c.position.length : ℤ) < toInt (frameNum + 2) then .ok none
    else do
      let last ← positionAt c (toInt (frameNum + 1))
      let first ← positionAt c frameNum
      m.readCollisionPoints F D first (toInt (last - first))

/-! ### Loading -/

/-- Where an entry of a saved log is unpacked. Its name is relative. -/
def entryPath (m : LogManager) (entry : JString) : JString :=
  m.tmpdir.getD "null".toList ++ SEPARATOR ++ entry

variable (D) in
/-- Read the header of an unpacked entry. -/
def loadEntry (m : LogManager) (entry : JString) : Except LogException LogManager :=
  let path := m.entryPath entry
  let file := (m.disk path).getD []
  if COLLISION_LOG_DAT_NAME <:+: path then .ok m
  else if COLLISION_LOG_NAME <:+: path then do
    let (c, _) ← (CollisionLogHeader.input D).run file
    return { m with collisionLog := some c }
  else do
    let (h, _) ← (LogHeader.input D).run file
    let h := if getVersion h.version ≤ 100 then h.setFileSize file.length else h
    let h ← h.calcUnitSize
    return m.putHeader h

variable (D) in
/-- Load a saved log, whose entries have been unpacked. -/
def load (m : LogManager) (entries : List JString) : Except LogException LogManager :=
  match entries.foldlM (loadEntry D) m.init with
  | .ok m => .ok m
  | .error e => .error (if e.isIO then .fileOpenFail else e)

/-- The entries of a saved log. -/
def savedEntries (m : LogManager) : List JString :=
  m.header.map (fun h ↦ h.objectName ++ POSTFIX) ++ [COLLISION_LOG_NAME, COLLISION_LOG_DAT_NAME]

end Data

end LogManager

end OpenHRP
