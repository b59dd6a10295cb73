import OpenHRP.GrxUI.WorldState

/-!
# The item that keeps the world states

`GrxWorldStateItem` keeps the world states of a simulation in memory. When the memory runs short it
writes the record that does not fit, and all later ones, into a log (`changePos_` is the position of
the first of them), and reads them from there.
-/

namespace OpenHRP

/-- A timed value of a series. A value that has been written to a log is null. -/
structure TValue (D : Type) where
  time : D
  value : Option (WorldStateEx D)

/-- `GrxWorldStateItem`, with the series that it extends and the settings that it reads. -/
structure WorldStateItem (F D : Type) where
  log : List (TValue D)
  maxLogSize : ℤ
  bRemoved : Bool
  overPos : ℤ
  changePos : ℤ
  newStat : Option (WorldStateEx D)
  preStat : Option (WorldStateEx D)
  prePos : ℤ
  logger : LogManager
  recDat : Option (List (List F))
  initLogFlag : Bool
  useDisk : Bool
  storeAllPos : Bool
  name : JString
  tempDirBase : JString
  tempDir : JString
  logTimeStep : D
  totalTime : D
  method : JString

def HEAP_MEMORY_TOLERANCE : ℤ := 4 * 1024 * 1024

def OVER_HEAP_LOG_DIR_NAME : JString := "over".toList

namespace WorldStateItem

variable {F D : Type}

/-! ### The series -/

def getLogSize (item : WorldStateItem F D) : ℤ :=
  item.log.length

/-- `GrxTimeSeriesItem.addValue`. -/
def addTimed (item : WorldStateItem F D) (t : D) (val : Option (WorldStateEx D)) :
    WorldStateItem F D :=
  let log := item.log ++ [⟨t, val⟩]
  if item.maxLogSize > 0 ∧ (log.length : ℤ) > item.maxLogSize then
    { item with log := log.tail, bRemoved := true }
  else { item with log }

/-- `GrxTimeSeriesItem.getValue`. -/
def getTimed (item : WorldStateItem F D) (pos : ℤ) : Option (WorldStateEx D) :=
  if 0 ≤ pos ∧ pos < item.log.length then (item.log[pos.toNat]?).bind TValue.value else none

/-! ### Updates -/

def setNewStat (item : WorldStateItem F D) (newStat : WorldStateEx D) : WorldStateItem F D :=
  { item with newStat := some newStat }

def setPreStat (item : WorldStateItem F D) (preStat : WorldStateEx D) (prePos : ℤ) :
    WorldStateItem F D :=
  { item with preStat := some preStat, prePos }

def setLogger (item : WorldStateItem F D) (logger : LogManager) : WorldStateItem F D :=
  { item with logger }

/-- Take back a log manager and the buffers of the records. -/
def setBuffer (item : WorldStateItem F D) (b : LogBuffer F) : WorldStateItem F D :=
  { item with logger := b.temp, recDat := b.recDat }

/-- The directory of the log that takes what the memory does not. -/
def overDir (item : WorldStateItem F D) : JString :=
  item.tempDirBase ++ item.name ++ SEPARATOR ++ OVER_HEAP_LOG_DIR_NAME

/-- Change from the memory to the log. -/
def changeToLog (item : WorldStateItem F D) : WorldStateItem F D :=
  { item with tempDir := item.overDir, changePos := item.getLogSize }

/-- One more value is in the log. -/
def countOver (item : WorldStateItem F D) : WorldStateItem F D :=
  { item with overPos := item.overPos + 1 }

variable [JavaFloat F] [JavaDouble D] [JavaCasts F D] [AxisAngles D]

/-! ### Adding values -/

/-- A new buffer for the records of a character. -/
def newBuffer (logger : LogManager) (newStat : WorldStateEx D) (i : ℕ) :
    Except LogException (List F) :=
  match newStat.charList[i]? with
  | none => .error .indexOutOfBounds
  | some cpos =>
    match logger.headerOf cpos.characterName with
    | none => .error .nullPointer
    | some h =>
      let length := h.recordSize.tdiv FLOAT_DATA_SIZE
      if length < 0 then .error .negativeArraySize
      else .ok (List.replicate length.toNat (intBitsToFloat 0))

/-- The simulation time that a new log starts with. -/
def simulationTime (item : WorldStateItem F D) (start : D) : SimulationTime where
  totalTime := .ofSeconds item.totalTime
  startTime := .ofSeconds start
  timeStep := .ofSeconds item.logTimeStep

/-- `_initLog`. The files are read after they have been made, so that opening them does not fail. -/
def initLog (item : WorldStateItem F D) (newStat : WorldStateEx D) :
    Except LogException (WorldStateItem F D) :=
  if item.initLogFlag then .ok item
  else do
    let logger ← (item.logger.setTempDir item.tempDir).openLogs (item.simulationTime newStat.time)
      item.method
    let recDat ← (List.range logger.header.length).mapM (newBuffer (F := F) logger newStat)
    return { item with
      initLogFlag := true
      logger
      recDat := some recDat
      preStat := some newStat }

/-- `_addValueToLogFromSuperLog`, where the log is that of the item. -/
def writeToLog (item : WorldStateItem F D) (obj : WorldStateEx D) :
    Except LogException (WorldStateItem F D) := do
  let item ← (item.setNewStat obj).initLog obj
  match (LogBuffer.toLogFile item.storeAllPos obj).runOn ⟨item.logger, item.recDat⟩ with
  | (.ok _, b) => return item.setBuffer b
  | (.error e, _) => throw e

/-- `_addValueToLog`. -/
def addValueToLog (item : WorldStateItem F D) (obj : WorldStateEx D) :
    Except LogException (WorldStateItem F D) := do
  let item ← item.writeToLog obj
  return item.addTimed obj.time none

/-- `addValue`, with the memory that is free then. -/
def addValue (item : WorldStateItem F D) (t : D) (obj : WorldStateEx D) (freeMemory : ℤ) :
    Except LogException (WorldStateItem F D) :=
  if item.useDisk then item.addValueToLog obj
  else if item.overPos > 0 then countOver <$> item.addValueToLog obj
  else if freeMemory < HEAP_MEMORY_TOLERANCE then countOver <$> item.changeToLog.addValueToLog obj
  else .ok (item.addTimed t obj)

/-! ### Reading values -/

/-- Read the records of the characters, until one of them fails to be read. The last time is
returned, and whether all records have been read. -/
def readCharacters (item : WorldStateItem F D) (pos : ℤ) :
    D → List (CharacterStateEx D) → Except LogException (D × List (CharacterStateEx D) × Bool)
  | time, [] => .ok (time, [], true)
  | time, cpos :: rest =>
    match item.logger.get F cpos.characterName pos with
    | .error e => if e.isIO then .ok (time, cpos :: rest, false) else .error e
    | .ok none => .error .nullPointer
    | .ok (some f) => do
      let ((time, cpos), _) ← (cpos.read item.storeAllPos).run f
      let (time, rest, complete) ← item.readCharacters pos time rest
      return (time, cpos :: rest, complete)

/-- `_getValueFromLog`. A record that fails to be read closes the files of the objects. -/
def getValueFromLog (item : WorldStateItem F D) (pos : ℤ) :
    Except LogException (Option (WorldStateEx D) × WorldStateItem F D) :=
  if pos = item.prePos then .ok (item.preStat, item)
  else
    match item.preStat with
    | none => .error .nullPointer
    | some preStat =>
      match item.logger.getCollisionPointData F D pos with
      | .error e =>
        if e.isIO then
          let preStat : WorldStateEx D := { preStat with collisions := some [none] }
          .ok (some preStat, item.setPreStat preStat pos)
        else .error e
      | .ok points => do
        let (time, charList, complete) ← item.readCharacters pos preStat.time preStat.charList
        let preStat : WorldStateEx D := { time, charList, collisions := some [points] }
        let logger := { item.logger with readFile := item.logger.readFile && complete }
        return (some preStat, (item.setPreStat preStat pos).setLogger logger)

/-- `getValue(pos)`. -/
def getValue (item : WorldStateItem F D) (pos : ℤ) :
    Except LogException (Option (WorldStateEx D) × WorldStateItem F D) :=
  if pos < 0 then .ok (none, item)
  else if item.useDisk then item.getValueFromLog pos
  else if pos > item.changePos ∧ item.changePos ≥ 0 then item.getValueFromLog (pos - item.changePos)
  else .ok (item.getTimed pos, item)

/-! ### Runs -/

/-- A call of `addValue`. -/
structure Addition (D : Type) where
  time : D
  value : WorldStateEx D
  freeMemory : ℤ

/-- Add values one after the other. -/
def addValues (item : WorldStateItem F D) (adds : List (Addition D)) :
    Except LogException (WorldStateItem F D) :=
  adds.foldlM (fun item a ↦ item.addValue a.time a.value a.freeMemory) item

/-- Read values at some positions. -/
def getValues (item : WorldStateItem F D) (reads : List ℤ) :
    Except LogException (WorldStateItem F D) :=
  reads.foldlM (fun item pos ↦ Prod.snd <$> item.getValue pos) item

/-- A position gives a record back, up to the conversions of the log. -/
def Finds (item : WorldStateItem F D) (pos : ℤ) (obj : WorldStateEx D) : Prop :=
  ∃ v item', item.getValue pos = .ok (some v, item') ∧
    (v.SameRecord obj ∨ v.SameRecord (obj.rounded F))

/-- All values are added, and after any reads every position of the log gives its record back. -/
def FindsAll (item : WorldStateItem F D) (adds : List (Addition D)) : Prop :=
  ∃ item', item.addValues adds = .ok item' ∧
    ∀ reads : List ℤ, ∃ item'', item'.getValues reads = .ok item'' ∧
      ∀ i : ℕ, i < item''.getLogSize → ∃ a, adds[i]? = some a ∧ item''.Finds i a.value

/-- An item that keeps all values in memory. -/
structure InMemory (item : WorldStateItem F D) : Prop where
  useDisk : item.useDisk = false
  overPos : item.overPos = 0

/-- An item whose values are in the log from a position on. -/
structure Spilled (k : ℕ) (item : WorldStateItem F D) : Prop where
  useDisk : item.useDisk = false
  overPos : 0 < item.overPos
  changePos : item.changePos = k
  boundary : ∃ t, item.log[k]? = some ⟨t, none⟩

/-- There is room for some more values. -/
def HasRoom (item : WorldStateItem F D) (n : ℕ) : Prop :=
  item.maxLogSize ≤ 0 ∨ item.log.length + n ≤ item.maxLogSize

variable {item item' : WorldStateItem F D}

omit [JavaFloat F] [JavaDouble D] [JavaCasts F D] [AxisAngles D] in
theorem addTimed_eq {n : ℕ} (hroom : item.HasRoom (n + 1)) (t : D) (val : Option (WorldStateEx D)) :
    item.addTimed t val = { item with log := item.log ++ [⟨t, val⟩] } := by
  rw [HasRoom] at hroom
  rw [addTimed, if_neg]
  rw [List.length_append, List.length_singleton]
  omega

omit [JavaCasts F D] [AxisAngles D] in
theorem exists_of_initLog {newStat : WorldStateEx D} (h : item.initLog newStat = .ok item') :
    ∃ initLogFlag logger recDat preStat,
      item' = { item with initLogFlag, logger, recDat, preStat } := by
  rw [initLog] at h
  split_ifs at h
  · exact ⟨_, _, _, _, (Except.ok.inj h).symm⟩
  rcases hopen : (item.logger.setTempDir item.tempDir).openLogs (item.simulationTime newStat.time)
      item.method with e | logger
  · rw [hopen] at h
    cases h
  rw [hopen] at h
  change (do
    let recDat ← (List.range logger.header.length).mapM (newBuffer (F := F) logger newStat)
    return { item with
      initLogFlag := true
      logger
      recDat := some recDat
      preStat := some newStat }) = Except.ok item' at h
  rcases hmap :
      (List.range logger.header.length).mapM (newBuffer (F := F) logger newStat) with e | recDat
  · rw [hmap] at h
    cases h
  · rw [hmap] at h
    exact ⟨_, _, _, _, (Except.ok.inj h).symm⟩

variable {obj : WorldStateEx D}

theorem exists_of_writeToLog (h : item.writeToLog obj = .ok item') :
    ∃ newStat initLogFlag logger recDat preStat,
      item' = { item with newStat, initLogFlag, logger, recDat, preStat } := by
  rw [writeToLog] at h
  rcases hinit : (item.setNewStat obj).initLog obj with e | item₁
  · rw [hinit] at h
    cases h
  obtain ⟨initLogFlag, logger, recDat, preStat, rfl⟩ := exists_of_initLog hinit
  rw [hinit] at h
  simp only [bind, Except.bind] at h
  split at h
  · exact ⟨_, _, _, _, _, (Except.ok.inj h).symm⟩
  · cases h

/-- What a value that is written to the log leaves as it was. -/
theorem exists_of_addValueToLog (h : item.addValueToLog obj = .ok item') :
    ∃ newStat initLogFlag logger recDat preStat,
      item' =
        { item with newStat, initLogFlag, logger, recDat, preStat }.addTimed obj.time none := by
  rw [addValueToLog] at h
  rcases hwrite : item.writeToLog obj with e | item₁
  · rw [hwrite] at h
    cases h
  rw [hwrite] at h
  obtain ⟨newStat, initLogFlag, logger, recDat, preStat, rfl⟩ := exists_of_writeToLog hwrite
  exact ⟨_, _, _, _, _, (Except.ok.inj h).symm⟩

/-- Where there is room, a value that is written to the log gets a null in the series. -/
theorem spilled_of_addValueToLog {n : ℕ} (hroom : item.HasRoom (n + 1))
    (h : item.addValueToLog obj = .ok item') :
    item'.HasRoom n ∧ item'.useDisk = item.useDisk ∧ item'.overPos = item.overPos ∧
      item'.changePos = item.changePos ∧ item'.log = item.log ++ [⟨obj.time, none⟩] := by
  obtain ⟨newStat, initLogFlag, logger, recDat, preStat, rfl⟩ := exists_of_addValueToLog h
  rw [addTimed_eq (by exact hroom)]
  refine ⟨?_, rfl, rfl, rfl, rfl⟩
  simp only [HasRoom, List.length_append, List.length_singleton] at hroom ⊢
  omega

theorem Spilled.addValue {k n : ℕ} (hk : item.Spilled k) (hroom : item.HasRoom (n + 1)) {t : D}
    {freeMemory : ℤ} (h : item.addValue t obj freeMemory = .ok item') :
    item'.Spilled k ∧ item'.HasRoom n ∧ item'.log.length = item.log.length + 1 := by
  obtain ⟨hdisk, hover, hchange, t', hboundary⟩ := hk
  rw [WorldStateItem.addValue, hdisk, if_neg (by decide), if_pos hover] at h
  rcases hadd : item.addValueToLog obj with e | item₁
  · rw [hadd] at h
    cases h
  rw [hadd] at h
  obtain rfl := Except.ok.inj h
  obtain ⟨hroom', hdisk', hover', hchange', hlog⟩ := spilled_of_addValueToLog hroom hadd
  refine ⟨⟨hdisk'.trans hdisk, ?_, hchange'.trans hchange, t', ?_⟩, hroom', ?_⟩
  · exact (hover'.trans_gt hover).trans (Int.lt_succ _)
  · exact (congrArg (·[k]?) hlog).trans (List.getElem?_append_left
      (List.getElem?_eq_some_iff.mp hboundary).1 ▸ hboundary)
  · exact (congrArg List.length hlog).trans List.length_append

/-- The first value that does not fit into the memory is the first one in the log. -/
theorem InMemory.spill (hm : item.InMemory) {n : ℕ} (hroom : item.HasRoom (n + 1)) {t : D}
    {freeMemory : ℤ} (hfree : freeMemory < HEAP_MEMORY_TOLERANCE)
    (h : item.addValue t obj freeMemory = .ok item') :
    item'.Spilled item.log.length ∧ item'.HasRoom n ∧
      item'.log.length = item.log.length + 1 := by
  rw [WorldStateItem.addValue, hm.useDisk, hm.overPos, if_neg (by decide), if_neg (by decide),
    if_pos hfree] at h
  rcases hadd : item.changeToLog.addValueToLog obj with e | item₁
  · rw [hadd] at h
    cases h
  rw [hadd] at h
  obtain rfl := Except.ok.inj h
  obtain ⟨hroom', hdisk', hover', hchange', hlog⟩ :=
    spilled_of_addValueToLog (show item.changeToLog.HasRoom (n + 1) from hroom) hadd
  have hover : item₁.overPos = 0 := hover'.trans hm.overPos
  have hlen : item₁.log.length = item.log.length + 1 :=
    (congrArg List.length hlog).trans List.length_append
  refine ⟨⟨hdisk'.trans hm.useDisk, ?_, hchange', obj.time, ?_⟩, hroom', hlen⟩
  · exact hover ▸ Int.lt_succ item₁.overPos
  · exact (congrArg (·[item.log.length]?) hlog).trans List.getElem?_concat_length

/-- A value that fits into the memory is kept there. -/
theorem InMemory.keep {item item' : WorldStateItem F D} (hm : item.InMemory) {n : ℕ}
    (hroom : item.HasRoom (n + 1)) {t : D} {obj : WorldStateEx D} {freeMemory : ℤ}
    (hfree : ¬ freeMemory < HEAP_MEMORY_TOLERANCE)
    (h : item.addValue t obj freeMemory = .ok item') :
    item'.InMemory ∧ item'.HasRoom n ∧ item'.log.length = item.log.length + 1 := by
  rw [WorldStateItem.addValue, hm.useDisk, hm.overPos, if_neg (by decide), if_neg (by decide),
    if_neg hfree, addTimed_eq hroom] at h
  obtain rfl := Except.ok.inj h
  refine ⟨⟨hm.useDisk, hm.overPos⟩, ?_, List.length_append⟩
  simp only [HasRoom, List.length_append, List.length_singleton] at hroom ⊢
  omega

variable {adds : List (Addition D)}

/-- The boundary stays where it is while values are added to the log. -/
theorem Spilled.addValues {k : ℕ} (hk : item.Spilled k) (hroom : item.HasRoom adds.length)
    (h : item.addValues adds = .ok item') :
    item'.Spilled k ∧ item'.log.length = item.log.length + adds.length := by
  induction adds generalizing item with
  | nil =>
    obtain rfl := Except.ok.inj h
    exact ⟨hk, rfl⟩
  | cons a adds ih =>
    rw [WorldStateItem.addValues, List.foldlM_cons] at h
    rcases ha : item.addValue a.time a.value a.freeMemory with e | item₁
    · rw [ha] at h
      cases h
    rw [ha] at h
    obtain ⟨hk₁, hroom₁, hlen₁⟩ := hk.addValue hroom ha
    obtain ⟨hk', hlen'⟩ := ih hk₁ hroom₁ h
    refine ⟨hk', ?_⟩
    rw [hlen', hlen₁, List.length_cons]
    omega

/-- The boundary is where the memory was short for the first time. -/
theorem InMemory.addValues (hm : item.InMemory) (hroom : item.HasRoom adds.length)
    (hspill : ∃ a ∈ adds, a.freeMemory < HEAP_MEMORY_TOLERANCE)
    (h : item.addValues adds = .ok item') :
    item'.Spilled (item.log.length + adds.findIdx (·.freeMemory < HEAP_MEMORY_TOLERANCE)) ∧
      item'.log.length = item.log.length + adds.length := by
  induction adds generalizing item with
  | nil =>
    obtain ⟨a, ha, -⟩ := hspill
    exact absurd ha List.not_mem_nil
  | cons a adds ih =>
    rw [WorldStateItem.addValues, List.foldlM_cons] at h
    rcases ha : item.addValue a.time a.value a.freeMemory with e | item₁
    · rw [ha] at h
      cases h
    rw [ha] at h
    rw [List.findIdx_cons, List.length_cons]
    rcases lt_or_ge a.freeMemory HEAP_MEMORY_TOLERANCE with hfree | hfree
    · obtain ⟨hk, hroom₁, hlen₁⟩ := hm.spill hroom hfree ha
      obtain ⟨hk', hlen'⟩ := hk.addValues hroom₁ h
      rw [decide_eq_true hfree, cond_true, Nat.add_zero]
      exact ⟨hk', by omega⟩
    · obtain ⟨hm₁, hroom₁, hlen₁⟩ := hm.keep hroom hfree.not_gt ha
      have hspill₁ : ∃ b ∈ adds, b.freeMemory < HEAP_MEMORY_TOLERANCE := by
        obtain ⟨b, hb, hlt⟩ := hspill
        rcases List.mem_cons.mp hb with rfl | hb
        · exact absurd hlt hfree.not_gt
        · exact ⟨b, hb, hlt⟩
      obtain ⟨hk', hlen'⟩ := ih hm₁ hroom₁ hspill₁ h
      rw [hlen₁] at hk' hlen'
      rw [decide_eq_false hfree.not_gt, cond_false]
      refine ⟨?_, by omega⟩
      rwa [Nat.add_assoc, Nat.add_comm 1] at hk'

/-- Reading a value does not change the series. -/
theorem exists_of_getValue {pos : ℤ} {v : Option (WorldStateEx D)}
    (h : item.getValue pos = .ok (v, item')) :
    ∃ preStat prePos logger, item' = { item with preStat, prePos, logger } := by
  have hlog {pos : ℤ} (h : item.getValueFromLog pos = .ok (v, item')) :
      ∃ preStat prePos logger, item' = { item with preStat, prePos, logger } := by
    rw [getValueFromLog] at h
    split_ifs at h
    · exact ⟨_, _, _, (congrArg Prod.snd (Except.ok.inj h)).symm⟩
    rcases hstat : item.preStat with - | preStat
    · rw [hstat] at h
      cases h
    rw [hstat] at h
    dsimp only at h
    rcases hpoints : item.logger.getCollisionPointData F D pos with e | points
    · rw [hpoints] at h
      dsimp only at h
      split_ifs at h
      exact ⟨_, _, _, (congrArg Prod.snd (Except.ok.inj h)).symm⟩
    · rw [hpoints] at h
      dsimp only at h
      rcases hread : item.readCharacters pos preStat.time preStat.charList with e | ⟨t, cs, c⟩
      · rw [hread] at h
        cases h
      · rw [hread] at h
        exact ⟨_, _, _, (congrArg Prod.snd (Except.ok.inj h)).symm⟩
  rw [getValue] at h
  split_ifs at h
  · exact ⟨_, _, _, (congrArg Prod.snd (Except.ok.inj h)).symm⟩
  · exact hlog h
  · exact hlog h
  · exact ⟨_, _, _, (congrArg Prod.snd (Except.ok.inj h)).symm⟩

theorem Spilled.getValues {k : ℕ} (hk : item.Spilled k) {reads : List ℤ}
    (h : item.getValues reads = .ok item') : item'.Spilled k ∧ item'.log = item.log := by
  induction reads generalizing item with
  | nil =>
    obtain rfl := Except.ok.inj h
    exact ⟨hk, rfl⟩
  | cons pos reads ih =>
    rw [WorldStateItem.getValues, List.foldlM_cons] at h
    rcases hread : item.getValue pos with e | ⟨v, item₁⟩
    · rw [hread] at h
      cases h
    rw [hread] at h
    obtain ⟨preStat, prePos, logger, hitem⟩ := exists_of_getValue hread
    have hk₁ : item₁.Spilled k := hitem ▸ ⟨hk.useDisk, hk.overPos, hk.changePos, hk.boundary⟩
    obtain ⟨hk', hlog⟩ := ih hk₁ h
    exact ⟨hk', hlog.trans (hitem ▸ rfl)⟩

/-- The value at the boundary is looked for in memory, where it is null. -/
theorem Spilled.getValue_boundary {k : ℕ} (hk : item.Spilled k) :
    item.getValue k = .ok (none, item) := by
  obtain ⟨t, ht⟩ := hk.boundary
  have hlen : k < item.log.length := (List.getElem?_eq_some_iff.mp ht).1
  have hnull : item.getTimed k = none := by
    rw [getTimed, if_pos ⟨Int.natCast_nonneg k, Int.ofNat_lt.mpr hlen⟩, Int.toNat_natCast, ht]
    rfl
  rw [getValue, if_neg (Int.natCast_nonneg k).not_gt, hk.useDisk, if_neg (by decide), hk.changePos,
    if_neg fun h ↦ lt_irrefl _ h.1, hnull]

/-- Whatever is added and read, the value at the boundary is not found. -/
theorem InMemory.getValue_boundary {item item₁ item₂ : WorldStateItem F D} (hm : item.InMemory)
    (hlog : item.log = []) (hroom : item.HasRoom adds.length)
    (hspill : ∃ a ∈ adds, a.freeMemory < HEAP_MEMORY_TOLERANCE)
    (hadd : item.addValues adds = .ok item₁) {reads : List ℤ}
    (hread : item₁.getValues reads = .ok item₂) :
    adds.findIdx (·.freeMemory < HEAP_MEMORY_TOLERANCE) < item₂.getLogSize ∧
      item₂.getValue (adds.findIdx (·.freeMemory < HEAP_MEMORY_TOLERANCE)) =
        .ok (none, item₂) := by
  obtain ⟨hk, hlen⟩ := hm.addValues hroom hspill hadd
  rw [hlog, List.length_nil, Nat.zero_add] at hk hlen
  obtain ⟨hk', hlog'⟩ := hk.getValues hread
  have hlt : adds.findIdx (·.freeMemory < HEAP_MEMORY_TOLERANCE) < adds.length :=
    List.findIdx_lt_length_of_exists (by simpa using hspill)
  refine ⟨?_, hk'.getValue_boundary⟩
  rw [getLogSize, hlog', hlen]
  exact Int.ofNat_lt.mpr hlt

/-- However an item is used after its memory was short for the first time, the value that was added
then is not found: `getValue` looks for the first value of the log in memory. -/
theorem not_findsAll {item : WorldStateItem F D} (hm : item.InMemory) (hlog : item.log = [])
    {adds : List (Addition D)} (hroom : item.HasRoom adds.length)
    (hspill : ∃ a ∈ adds, a.freeMemory < HEAP_MEMORY_TOLERANCE) : ¬ item.FindsAll adds := by
  rintro ⟨item₁, hadd, hread⟩
  obtain ⟨item₂, hitem₂, hfind⟩ := hread []
  obtain ⟨hlt, hnone⟩ := hm.getValue_boundary hlog hroom hspill hadd hitem₂
  obtain ⟨a, -, v, item₃, hget, -⟩ := hfind _ hlt
  rw [hnone] at hget
  cases hget

/-! ### The log of a resting body -/

/-- The matrix of no rotation. -/
def identityMatrix : Fin 9 → BitVec 64 :=
  ![0x3FF0000000000000, 0, 0, 0, 0x3FF0000000000000, 0, 0, 0, 0x3FF0000000000000]

/-- The conversions of no rotation. -/
instance : AxisAngles (BitVec 64) where
  setMatrix _ := ![0, 0x3FF0000000000000, 0, 0]
  setAxisAngle _ := identityMatrix

/-- An item that has just been cleared, for a time step of 0.5 s and a total time of 20 s. -/
def boxItem : WorldStateItem (BitVec 32) (BitVec 64) where
  log := []
  maxLogSize := -1
  bRemoved := false
  overPos := 0
  changePos := -1
  newStat := none
  preStat := none
  prePos := -1
  logger := { LogManager.new (fun _ ↦ none) with header := [boxObject.header] }
  recDat := none
  initLogFlag := false
  useDisk := false
  storeAllPos := true
  name := "log".toList
  tempDirBase := "tmp/".toList
  tempDir := "tmp/log".toList
  logTimeStep := 0x3FE0000000000000
  totalTime := 0x4034000000000000
  method := "EULER".toList

/-- The body at the origin. -/
def boxState (time : BitVec 64) : WorldStateEx (BitVec 64) where
  time
  charList :=
    [{ characterName := "box".toList
       position := [{ p := some fun _ ↦ 0, R := some identityMatrix }]
       sensorState := none
       targetState := none
       servoState := none
       powerState := none }]
  collisions := none

/-- The memory is short at the second of three times. -/
def boxAdditions : List (Addition (BitVec 64)) :=
  [⟨0, boxState 0, HEAP_MEMORY_TOLERANCE⟩,
   ⟨0x3FE0000000000000, boxState 0x3FE0000000000000, 0⟩,
   ⟨0x3FF0000000000000, boxState 0x3FF0000000000000, 0⟩]

theorem not_findsAll_tail : ¬ boxItem.FindsAll boxAdditions.tail :=
  not_findsAll ⟨rfl, rfl⟩ rfl (.inl (by decide)) ⟨_, .head _, by decide⟩

/-- The values are added, but the second one is not found. -/
theorem boxItem_not_findsAll :
    (∃ item, boxItem.addValues boxAdditions = .ok item ∧ item.getLogSize = 3 ∧
      item.getValue 1 = .ok (none, item)) ∧ ¬ boxItem.FindsAll boxAdditions := by
  have hm : boxItem.InMemory := ⟨rfl, rfl⟩
  have hroom : boxItem.HasRoom boxAdditions.length := .inl (by decide)
  have hspill : ∃ a ∈ boxAdditions, a.freeMemory < HEAP_MEMORY_TOLERANCE :=
    ⟨_, .tail _ (.head _), by decide⟩
  have hok : (boxItem.addValues boxAdditions).isOk = true := by decide +kernel
  constructor
  · rcases hadd : boxItem.addValues boxAdditions with e | item
    · rw [hadd] at hok
      cases hok
    · obtain ⟨-, hlen⟩ := hm.addValues hroom hspill hadd
      exact ⟨item, rfl, congrArg Int.ofNat hlen,
        (hm.getValue_boundary rfl hroom hspill hadd (show item.getValues [] = .ok item from rfl)).2⟩
  · rintro ⟨item₁, hadd, hread⟩
    obtain ⟨item₂, hitem₂, hfind⟩ := hread []
    obtain ⟨hlt, hnone⟩ := hm.getValue_boundary rfl hroom hspill hadd hitem₂
    obtain ⟨a, -, v, item₃, hget, -⟩ := hfind _ hlt
    rw [hnone] at hget
    cases hget

end WorldStateItem

end OpenHRP
