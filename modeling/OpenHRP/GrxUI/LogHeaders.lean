import OpenHRP.GrxUI.JavaData
import Mathlib.Data.List.Infix

/-!
# The headers of the log files

`LogHeader` is the header of the log file of one object, `CollisionLogHeader` that of the collision
log. Each is written into a new file when the log is opened, patched when it is closed, and read
when the log is loaded. What is read is what was written (`LogHeader.reads_input`,
`CollisionLogHeader.reads_input`).
-/

namespace OpenHRP

/-! ### Strings -/

/-- A Java string. -/
abbrev JString := List Char

/-- `String.indexOf`. -/
def indexOf (s : JString) (c : Char) : ℤ :=
  match s.findIdx? (· = c) with
  | some i => i
  | none => -1

/-- `String.substring`, which throws where the bounds are outside the string or crossed. -/
def substring (s : JString) (first last : ℤ) : Option JString :=
  if 0 ≤ first ∧ first ≤ last ∧ last ≤ s.length then
    some ((s.take last.toNat).drop first.toNat)
  else none

def parseDigits (s : JString) : Option ℕ :=
  if s = [] then none
  else s.foldlM (fun n c ↦ if c.isDigit then some (10 * n + (c.toNat - '0'.toNat)) else none) 0

/-- `Integer.parseInt`, without a result where it throws. -/
def parseInt (s : JString) : Option ℤ :=
  let value : Option ℤ := match s with
    | '-' :: digits => (parseDigits digits).map fun n ↦ -(n : ℤ)
    | '+' :: digits => (parseDigits digits).map fun n ↦ (n : ℤ)
    | digits => (parseDigits digits).map fun n ↦ (n : ℤ)
  value.filter fun n ↦ decide (IsInt n)

/-- The bytes of `writeBytes`. -/
def stringBytes (s : JString) : Bytes :=
  s.map fun c ↦ UInt8.ofNat c.toNat

/-- `new String(bytes)`, for bytes that are ASCII. -/
def bytesString (bs : Bytes) : JString :=
  bs.map fun b ↦ Char.ofNat b.toNat

/-- A string of ASCII characters. A NUL is not one of them: it ends a string in a log file. -/
def IsAscii (s : JString) : Prop :=
  ∀ c ∈ s, 0 < c.toNat ∧ c.toNat < 128

instance (s : JString) : Decidable (IsAscii s) :=
  List.decidableBAll (fun c : Char ↦ 0 < c.toNat ∧ c.toNat < 128) s

/-- A string and the zero byte behind it. -/
def terminatedBytes (s : JString) : Bytes :=
  stringBytes s ++ [0]

/-- The strings that are ended by a zero byte, where `read` are the bytes of the current one. -/
def splitStrings : Bytes → Bytes → List JString
  | _, [] => []
  | read, b :: bs =>
    if b = 0 then bytesString read :: splitStrings [] bs else splitStrings (read ++ [b]) bs

theorem IsAscii.bytesString_stringBytes {s : JString} (hs : IsAscii s) :
    bytesString (stringBytes s) = s := by
  rw [bytesString, stringBytes, List.map_map]
  refine (List.map_congr_left fun c hc ↦ ?_).trans (List.map_id s)
  have hlt : c.toNat < 256 := (hs c hc).2.trans (by norm_num)
  rw [Function.comp_apply, UInt8.toNat_ofNat', Nat.mod_eq_of_lt hlt, Char.ofNat_toNat, id]

theorem IsAscii.ne_zero {s : JString} (hs : IsAscii s) : ∀ b ∈ stringBytes s, b ≠ 0 := by
  intro b hb h
  obtain ⟨c, hc, rfl⟩ := List.mem_map.mp hb
  obtain ⟨hpos, hlt⟩ := hs c hc
  have h0 := congrArg UInt8.toNat h
  rw [UInt8.toNat_ofNat', Nat.mod_eq_of_lt (by omega)] at h0
  exact hpos.ne' h0

theorem splitStrings_append {bs : Bytes} (hbs : ∀ b ∈ bs, b ≠ 0) (read rest : Bytes) :
    splitStrings read (bs ++ 0 :: rest) = bytesString (read ++ bs) :: splitStrings [] rest := by
  induction bs generalizing read with
  | nil => simp [splitStrings]
  | cons b bs ih =>
    rw [List.cons_append, splitStrings, if_neg (hbs b (.head bs)),
      ih (fun c hc ↦ hbs c (.tail b hc)), List.append_assoc]
    rfl

/-- Terminated strings are found again. -/
theorem splitStrings_terminatedBytes {ss : List JString} (h : ∀ s ∈ ss, IsAscii s) :
    splitStrings [] (ss.flatMap terminatedBytes) = ss := by
  induction ss with
  | nil => rfl
  | cons s ss ih =>
    have hs := h s (.head ss)
    rw [List.flatMap_cons, terminatedBytes, List.append_assoc, List.singleton_append,
      splitStrings_append hs.ne_zero, List.nil_append, hs.bytesString_stringBytes,
      ih fun t ht ↦ h t (.tail s ht)]

/-! ### Versions -/

def currentVersion : Bytes :=
  [0, 3, 1, 0]

/-- `getVersion`. -/
def getVersion (version : Bytes) : ℤ :=
  version.foldl (fun n b ↦ 10 * n + (b.toNat : ℤ).bmod 256) 0

theorem getVersion_currentVersion : getVersion currentVersion = 310 := by
  decide +kernel

/-! ### The header of a log file -/

/-- The part of the header that has a fixed size. -/
def FIXED_PART_SIZE : ℕ := 64

def FLOAT_DATA_SIZE : ℤ := 4

/-- A log header. Its version is empty before it has been written or read. -/
structure LogHeader where
  version : Bytes
  headerSize : ℤ
  totalTime : ℤ
  startTime : ℤ
  endTime : ℤ
  timeStep : ℤ
  method : ℤ
  recordSize : ℤ
  numRecords : ℤ
  objectName : JString
  dataFormat : List JString
  unitSize : List ℤ
  deriving DecidableEq

/-- The unit size of one field of a record: 0 for a single number, or the length of an array. -/
def unitSizeOf (format : JString) : Except LogException ℤ :=
  if ¬ "float".toList <+: format then throw .logFileFormat
  else if format = "float".toList then pure 0
  else
    match (substring format (indexOf format '[' + 1) (indexOf format ']')).bind parseInt with
    | some n => pure n
    | none => throw .logFileFormat

/-- The unit sizes of the fields, which are pairs of a name and a format. -/
def unitSizes : List JString → Except LogException (List ℤ)
  | _ :: format :: rest => do
    let n ← unitSizeOf format
    let ns ← unitSizes rest
    return n :: ns
  | _ => pure []

/-- The numbers of a record. -/
def recordLength : List JString → List ℤ → ℤ
  | _ :: format :: rest, n :: ns =>
    (if format = "float".toList then 1 else n) + recordLength rest ns
  | _, _ => 0

namespace LogHeader

/-- The size of a header: the fixed part, the name and the formats. -/
def headerSizeOf (objectName : JString) (dataFormat : List JString) : ℤ :=
  FIXED_PART_SIZE + ((objectName :: dataFormat).flatMap terminatedBytes).length

/-- `LogHeader(objectName, format)`. -/
def new (objectName : JString) (format : List JString) : Except LogException LogHeader := do
  let unitSize ← unitSizes format
  return {
    version := []
    headerSize := toInt (headerSizeOf objectName format)
    totalTime := 0
    startTime := 0
    endTime := 0
    timeStep := 0
    method := 0
    recordSize := toInt (recordLength format unitSize * FLOAT_DATA_SIZE)
    numRecords := 0
    objectName
    dataFormat := format
    unitSize }

/-- What is written into a new log file. -/
def output (h : LogHeader) : Bytes :=
  currentVersion ++ writeInt h.headerSize ++ writeLong h.totalTime ++ writeLong h.startTime ++
    writeLong h.endTime ++
    (writeLong h.timeStep ++ writeInt h.method ++ writeInt h.recordSize) ++
    writeInt h.numRecords ++
    (List.replicate 12 0 ++ (h.objectName :: h.dataFormat).flatMap terminatedBytes)

/-- Patch the end time and the number of records. -/
def outEndTime (h : LogHeader) (file : Bytes) : Bytes :=
  overwrite (overwrite file 24 (writeLong h.endTime)) 48 (writeInt h.numRecords)

/-- The name and the formats. A header without a name is put under a null key when it is loaded. -/
def inputStrings (h : LogHeader) : Reader LogException LogHeader := do
  let size := toInt (h.headerSize - FIXED_PART_SIZE)
  if size < 0 then throw .negativeArraySize
  let buffer ← readFully size.toNat
  match splitStrings [] buffer with
  | [] => throw .nullPointer
  | objectName :: dataFormat => return { h with objectName, dataFormat }

/-- What `input` reads of a file up to version 1.0. -/
def inputOld (D : Type) [JavaDouble D] (version : Bytes) : Reader LogException LogHeader := do
  let headerSize ← readInt
  let totalTime ← readDouble D
  let startTime ← readDouble D
  let endTime ← readDouble D
  let timeStep ← readInt
  let method ← readInt
  let recordSize ← readInt
  let _ ← readFully 32
  inputStrings {
    version
    headerSize
    totalTime := (Time.ofSeconds totalTime).getUtime
    startTime := (Time.ofSeconds startTime).getUtime
    endTime := (Time.ofSeconds endTime).getUtime
    timeStep
    method
    recordSize
    numRecords := 0
    objectName := []
    dataFormat := []
    unitSize := [] }

/-- What `input` reads of a later file. -/
def inputNew (version : Bytes) : Reader LogException LogHeader := do
  let headerSize ← readInt
  let totalTime ← readLong
  let startTime ← readLong
  let endTime ← readLong
  let timeStep ← readLong
  let method ← readInt
  let recordSize ← readInt
  let numRecords ← readInt
  let _ ← readFully 12
  inputStrings {
    version
    headerSize
    totalTime
    startTime
    endTime
    timeStep
    method
    recordSize
    numRecords
    objectName := []
    dataFormat := []
    unitSize := [] }

def input (D : Type) [JavaDouble D] : Reader LogException LogHeader := do
  let version ← readFully 4
  if getVersion version ≤ 100 then inputOld D version else inputNew version

def calcUnitSize (h : LogHeader) : Except LogException LogHeader := do
  let unitSize ← unitSizes h.dataFormat
  return { h with unitSize }

/-- The number of records of a file up to version 1.0. -/
def setFileSize (h : LogHeader) (length : ℤ) : LogHeader :=
  { h with numRecords :=
      if h.recordSize = 0 then 0 else toInt ((length - h.headerSize).tdiv h.recordSize) }

/-- A header that its bytes describe. -/
structure Encodable (h : LogHeader) : Prop where
  headerSize : h.headerSize = headerSizeOf h.objectName h.dataFormat
  isInt_headerSize : IsInt h.headerSize
  totalTime : IsLong h.totalTime
  startTime : IsLong h.startTime
  endTime : IsLong h.endTime
  timeStep : IsLong h.timeStep
  method : IsInt h.method
  recordSize : IsInt h.recordSize
  numRecords : IsInt h.numRecords
  ascii : ∀ s ∈ h.objectName :: h.dataFormat, IsAscii s

variable {h : LogHeader}

theorem Encodable.length_strings (hh : h.Encodable) :
    (((h.objectName :: h.dataFormat).flatMap terminatedBytes).length : ℤ) =
      h.headerSize - FIXED_PART_SIZE := by
  rw [hh.headerSize, headerSizeOf]
  ring

theorem length_output (hh : h.Encodable) : (h.output.length : ℤ) = h.headerSize := by
  have hlen : h.output.length =
      64 + ((h.objectName :: h.dataFormat).flatMap terminatedBytes).length := by
    simp only [output, currentVersion, List.length_append, length_writeInt, length_writeLong,
      List.length_replicate, List.length_cons, List.length_nil]
    omega
  rw [hlen, Nat.cast_add, hh.length_strings, FIXED_PART_SIZE]
  ring

/-- A header before its strings have been read. -/
def withoutStrings (h : LogHeader) : LogHeader :=
  { h with objectName := [], dataFormat := [] }

/-- A header as it is read from its bytes. -/
def asRead (h : LogHeader) : LogHeader :=
  { h with version := currentVersion, unitSize := [] }

theorem Encodable.asRead (hh : h.Encodable) : h.asRead.Encodable :=
  { hh with }

theorem reads_inputStrings (hh : h.Encodable) :
    Reads (inputStrings h.withoutStrings)
      ((h.objectName :: h.dataFormat).flatMap terminatedBytes) h := by
  have hlen := hh.length_strings
  have hsize : toInt (h.headerSize - FIXED_PART_SIZE) = h.headerSize - FIXED_PART_SIZE :=
    toInt_of_isInt ⟨by have := hh.isInt_headerSize.1; omega,
      by have := hh.isInt_headerSize.2; rw [FIXED_PART_SIZE]; omega⟩
  have hread := reads_readFully (show ((h.objectName :: h.dataFormat).flatMap
    terminatedBytes).length = (h.headerSize - FIXED_PART_SIZE).toNat by omega)
  rw [inputStrings, withoutStrings, hsize, if_neg (by omega)]
  rw [← List.append_nil ((h.objectName :: h.dataFormat).flatMap terminatedBytes)]
  refine hread.bind ?_
  rw [splitStrings_terminatedBytes hh.ascii]
  exact Reads.pure _

/-- What `input` reads is what `output` has written. -/
theorem reads_input (D : Type) [JavaDouble D] (hh : h.Encodable) :
    Reads (input D) h.output h.asRead := by
  rw [output]
  simp only [List.append_assoc]
  refine (reads_readFully (show currentVersion.length = 4 from rfl)).bind ?_
  rw [getVersion_currentVersion, if_neg (by norm_num)]
  refine (reads_readInt hh.isInt_headerSize).bind ?_
  refine (reads_readLong hh.totalTime).bind ?_
  refine (reads_readLong hh.startTime).bind ?_
  refine (reads_readLong hh.endTime).bind ?_
  refine (reads_readLong hh.timeStep).bind ?_
  refine (reads_readInt hh.method).bind ?_
  refine (reads_readInt hh.recordSize).bind ?_
  refine (reads_readInt hh.numRecords).bind ?_
  refine (reads_readFully List.length_replicate).bind ?_
  exact reads_inputStrings hh.asRead

/-- The header of a log that is closed. -/
def finished (h : LogHeader) (endTime numRecords : ℤ) : LogHeader :=
  { h with endTime, numRecords }

/-- The patched header is the header with the new end time and number of records. -/
theorem outEndTime_output (h : LogHeader) (endTime numRecords : ℤ) (records : Bytes) :
    outEndTime (h.finished endTime numRecords) (h.output ++ records) =
      (h.finished endTime numRecords).output ++ records := by
  have hend (post : Bytes) := overwrite_field post
    (show (currentVersion ++ writeInt h.headerSize ++ writeLong h.totalTime ++
      writeLong h.startTime).length = 24 by simp [currentVersion])
    (show (writeLong h.endTime).length = (writeLong endTime).length by simp)
  have hnum (post : Bytes) := overwrite_field post
    (show (currentVersion ++ writeInt h.headerSize ++ writeLong h.totalTime ++
      writeLong h.startTime ++ writeLong endTime ++
      (writeLong h.timeStep ++ writeInt h.method ++ writeInt h.recordSize)).length = 48 by
        simp [currentVersion])
    (show (writeInt h.numRecords).length = (writeInt numRecords).length by simp)
  simp only [List.append_assoc] at hend hnum
  simp only [outEndTime, finished, output, List.append_assoc, hend, hnum]

end LogHeader

/-! ### The header of the collision log -/

/-- A collision log header, with the offsets in the data file where the frames start. -/
structure CollisionLogHeader where
  headerSize : ℤ
  totalTime : ℤ
  startTime : ℤ
  endTime : ℤ
  timeStep : ℤ
  position : List ℤ
  currentPos : ℤ
  numRecords : ℤ
  deriving DecidableEq

namespace CollisionLogHeader

/-- `CollisionLogHeader()`. -/
def empty : CollisionLogHeader where
  headerSize := 0
  totalTime := 0
  startTime := 0
  endTime := 0
  timeStep := 0
  position := []
  currentPos := 0
  numRecords := 0

/-- `CollisionLogHeader(time)`. -/
def new (time : SimulationTime) : CollisionLogHeader :=
  { empty with
    headerSize := FIXED_PART_SIZE + 4
    totalTime := time.totalTime.getUtime
    startTime := time.startTime.getUtime
    timeStep := time.timeStep.getUtime }

/-- The part of the header that has a fixed size. -/
def fixedPart (h : CollisionLogHeader) : Bytes :=
  currentVersion ++ writeInt h.headerSize ++
    (writeLong h.totalTime ++ writeLong h.startTime ++ writeLong h.endTime) ++
    (writeLong h.timeStep ++ List.replicate 24 0)

/-- What is written into a new collision log. -/
def createLogHeader (h : CollisionLogHeader) : Bytes :=
  h.fixedPart ++ h.position.flatMap writeInt

/-- Patch the times. -/
def outTimesAndRecalculation (h : CollisionLogHeader) (file : Bytes) : Bytes :=
  overwrite file 8
    (writeLong (toLong (h.endTime - h.startTime)) ++ writeLong h.startTime ++ writeLong h.endTime)

/-- The header in the file after the times have been patched. -/
def recalculated (h : CollisionLogHeader) : CollisionLogHeader :=
  { h with totalTime := toLong (h.endTime - h.startTime) }

/-- Write the offsets. -/
def outPositions (h : CollisionLogHeader) (file : Bytes) : Bytes :=
  overwrite file FIXED_PART_SIZE (h.position.flatMap writeInt)

/-- The number of frames between two times, computed as an `int`. -/
def frameSize (startTime endTime timeStep : ℤ) : ℤ :=
  let duration := toLong (endTime - startTime)
  toInt (duration.tdiv timeStep + (if duration.tmod timeStep > timeStep / 2 then 1 else 0) + 1)

/-- The offsets, one more than there are frames. -/
def inputPositions (h : CollisionLogHeader) : Reader LogException CollisionLogHeader := do
  if h.timeStep = 0 then throw .arithmetic
  let numRecords := frameSize h.startTime h.endTime h.timeStep
  let position ← readMany readInt (toInt (numRecords + 1)).toNat
  return { h with position, numRecords }

/-- What `input` reads of a file up to version 1.0. -/
def inputOld (D : Type) [JavaDouble D] : Reader LogException CollisionLogHeader := do
  let headerSize ← readInt
  let totalTime ← readDouble D
  let startTime ← readDouble D
  let endTime ← readDouble D
  let timeStep ← readInt
  let _ ← readFully 40
  inputPositions { empty with
    headerSize
    totalTime := (Time.ofSeconds totalTime).getUtime
    startTime := (Time.ofSeconds startTime).getUtime
    endTime := (Time.ofSeconds endTime).getUtime
    timeStep }

/-- What `input` reads of a later file. -/
def inputNew : Reader LogException CollisionLogHeader := do
  let headerSize ← readInt
  let totalTime ← readLong
  let startTime ← readLong
  let endTime ← readLong
  let timeStep ← readLong
  let _ ← readFully 24
  inputPositions { empty with headerSize, totalTime, startTime, endTime, timeStep }

/-- `input`, of a header made by `CollisionLogHeader()`. -/
def input (D : Type) [JavaDouble D] : Reader LogException CollisionLogHeader := do
  let version ← readFully 4
  if getVersion version ≤ 100 then inputOld D else inputNew

/-- Append the frames of another header, where their time steps agree. -/
def joinCollisionLogHeader (h ref : CollisionLogHeader) : CollisionLogHeader :=
  if ref.timeStep ≠ h.timeStep then h
  else { h with
    endTime := ref.endTime
    position := h.position ++ ref.position.tail.map fun p ↦ toInt (p + h.currentPos)
    numRecords := toInt (h.numRecords + ref.position.length - 1) }

/-- A header that the bytes of its fixed part describe. -/
structure Encodable (h : CollisionLogHeader) : Prop where
  headerSize : IsInt h.headerSize
  totalTime : IsLong h.totalTime
  startTime : IsLong h.startTime
  endTime : IsLong h.endTime
  timeStep : IsLong h.timeStep

theorem length_fixedPart (h : CollisionLogHeader) : h.fixedPart.length = FIXED_PART_SIZE := by
  simp [fixedPart, currentVersion, FIXED_PART_SIZE]

theorem length_positions (position : List ℤ) :
    (position.flatMap writeInt).length = 4 * position.length := by
  simp [List.length_flatMap, Nat.mul_comm]

/-- The header of a closed log: the times are patched, and the offsets of all frames follow the
fixed part. -/
theorem patch_createLogHeader (h h₀ : CollisionLogHeader) (hsize : h₀.headerSize = h.headerSize)
    (hstep : h₀.timeStep = h.timeStep) (hlen : h₀.position.length ≤ h.position.length) :
    h.outPositions (h.outTimesAndRecalculation h₀.createLogHeader) =
      h.recalculated.createLogHeader := by
  have htimes (post : Bytes) := overwrite_field post
    (show (currentVersion ++ writeInt h.headerSize).length = 8 by simp [currentVersion])
    (show (writeLong h₀.totalTime ++ writeLong h₀.startTime ++ writeLong h₀.endTime).length =
      (writeLong (toLong (h.endTime - h.startTime)) ++ writeLong h.startTime ++
        writeLong h.endTime).length by simp)
  have hfixed : h.outTimesAndRecalculation h₀.createLogHeader =
      h.recalculated.fixedPart ++ h₀.position.flatMap writeInt := by
    rw [outTimesAndRecalculation, createLogHeader, fixedPart, fixedPart, recalculated, hsize, hstep]
    simp only [List.append_assoc] at htimes ⊢
    rw [htimes]
  rw [hfixed]
  refine overwrite_tail (length_fixedPart _) ?_
  rw [length_positions, length_positions]
  omega

/-- A header of which only the fixed part has been read. -/
def unread (h : CollisionLogHeader) : CollisionLogHeader :=
  { h with position := [], currentPos := 0, numRecords := 0 }

variable {h : CollisionLogHeader}

/-- After the fixed part `input` reads the offsets. -/
theorem run_input (D : Type) [JavaDouble D] (hh : h.Encodable) (rest : Bytes) :
    (input D).run (h.fixedPart ++ rest) =
      h.unread.inputPositions.run rest := by
  rw [fixedPart]
  simp only [List.append_assoc]
  rw [input, (reads_readFully (show currentVersion.length = 4 from rfl)).run_bind,
    getVersion_currentVersion, if_neg (by norm_num), inputNew,
    (reads_readInt hh.headerSize).run_bind, (reads_readLong hh.totalTime).run_bind,
    (reads_readLong hh.startTime).run_bind, (reads_readLong hh.endTime).run_bind,
    (reads_readLong hh.timeStep).run_bind,
    (reads_readFully List.length_replicate).run_bind]
  rfl

variable {position : List ℤ}

/-- As many offsets as are expected are read. -/
theorem run_inputPositions (hstep : h.timeStep ≠ 0) (hpos : ∀ p ∈ position, IsInt p) {n : ℤ}
    (hn : frameSize h.startTime h.endTime h.timeStep = n)
    (hlen : (toInt (n + 1)).toNat = position.length) :
    (inputPositions h).run (position.flatMap writeInt) =
      .ok ({ h with position, numRecords := n }, []) := by
  have hread := reads_readMany position fun p hp ↦ reads_readInt (hpos p hp)
  rw [← hlen, ← hn] at hread
  rw [inputPositions, if_neg hstep, ← hn]
  exact (List.append_nil (position.flatMap writeInt) ▸ hread.run_bind [] :)

/-- Where there are fewer offsets than expected the stream ends before the last one. -/
theorem run_inputPositions_of_lt (hstep : h.timeStep ≠ 0) (hpos : ∀ p ∈ position, IsInt p)
    (hlen : (position.length : ℤ) < toInt (frameSize h.startTime h.endTime h.timeStep + 1)) :
    (inputPositions h).run (position.flatMap writeInt) = .error .eof := by
  have hread := readMany_run_of_lt (p := readInt) rfl position
    (show position.length < (toInt (frameSize h.startTime h.endTime h.timeStep + 1)).toNat by omega)
    fun p hp ↦ reads_readInt (hpos p hp)
  rw [inputPositions, if_neg hstep]
  exact run_bind_error hread

/-- There are never more offsets than an `int` counts. -/
theorem length_position_of_inputPositions {h h' : CollisionLogHeader} {bs rest : Bytes}
    (hrun : (inputPositions h).run bs = .ok (h', rest)) : h'.position.length < 2 ^ 31 := by
  rw [inputPositions] at hrun
  split_ifs at hrun with hstep
  · cases hrun
  · obtain ⟨position, ds, hread, hpure⟩ := exists_of_run_bind hrun
    cases hpure
    have hlt := (isInt_toInt (frameSize h.startTime h.endTime h.timeStep + 1)).2
    rw [length_of_readMany hread]
    omega

/-- There are never more offsets than are in the file. -/
theorem length_position_le_of_inputPositions {h h' : CollisionLogHeader}
    (hpos : ∀ p ∈ position, IsInt p) {rest : Bytes}
    (hrun : (inputPositions h).run (position.flatMap writeInt) = .ok (h', rest)) :
    h'.position.length ≤ position.length := by
  have hstep : h.timeStep ≠ 0 := by
    intro hstep
    rw [inputPositions, if_pos hstep] at hrun
    cases hrun
  by_contra! hlt
  rw [run_inputPositions_of_lt hstep hpos] at hrun
  · cases hrun
  rw [inputPositions, if_neg hstep] at hrun
  obtain ⟨position', ds, hread, hpure⟩ := exists_of_run_bind hrun
  cases hpure
  have hlen := length_of_readMany hread
  dsimp only at hlt
  omega

end CollisionLogHeader

end OpenHRP
