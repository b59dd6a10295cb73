import OpenHRP.Foundations.GroupedLists
import OpenHRP.Foundations.WrittenCells
import OpenHRP.GrxUI.LogManager

/-!
# The graph readers

A graph shows the numbers of a log as series, each in an array that is a ring. `LogManager` has two
readers that fill the arrays: `getData` with the data models works out at every call what to read,
and reads the file of an object record by record; `initGetData` prepares this in fields, and
`getData` without the data models uses them, and reads the file of an object number by number.

The readers write the arrays of the series and do not read them, so that a run is a computation that
writes the cells of a memory.
-/

namespace OpenHRP

/-- A `DataItem`, the name of a number. -/
structure DataItem where
  object : Option JString
  node : JString
  attr : JString
  index : ℤ

/-- A `DataSeries`: the array `data_`, of `size_` elements, and where its first element is. -/
structure DataSeries (ι : Type) where
  data : ι
  size : ℤ
  headPos : ℤ
  isInt_size : IsInt size
  headPos_nonneg : 0 ≤ headPos
  headPos_lt : headPos < size

/-- A `DataModel`. -/
structure DataModel (ι : Type) where
  dataItem : DataItem
  dataSeries : DataSeries ι

/-- The elements of the arrays. -/
abbrev Arrays (ι D : Type) := ι × ℤ → D

def NONAME_OBJECT : JString := "_noname".toList

/-- The name of the object, where it has one. -/
def DataItem.objectName (di : DataItem) : JString :=
  match di.object with
  | none => NONAME_OBJECT
  | some obj => if obj = [] then NONAME_OBJECT else obj

/-- The name of a number in the records of its object: `node.attribute.index`. -/
def DataItem.key (di : DataItem) (attr : JString) : JString :=
  di.node ++ '.' :: attr ++ if 0 ≤ di.index then '.' :: Nat.toDigits 10 di.index.toNat else []

namespace LogHeader

/-- The names of the numbers of a record, in the order of `_makeIndexMapMap`. -/
def namesOf : List JString → List ℤ → List JString
  | name :: _ :: format, n :: unitSize =>
    (if n = 0 then [name]
      else (List.range n.toNat).map fun j ↦ name ++ '.' :: Nat.toDigits 10 j) ++
      namesOf format unitSize
  | _, _ => []

def names (h : LogHeader) : List JString :=
  namesOf h.dataFormat h.unitSize

/-- The map that `_makeIndexMapMap` makes; a name that comes twice has its last index. -/
def indexMap (h : LogHeader) : JString → Option ℕ :=
  h.names.zipIdx.foldl (fun map x ↦ Function.update map x.1 (some x.2)) fun _ ↦ none

/-- The numbers of a record. -/
def itemsPerRec (h : LogHeader) : ℤ :=
  h.recordSize.tdiv FLOAT_DATA_SIZE

end LogHeader

namespace LogManager

/-- `indexMapMap_.get`. The map of an object is made when its header is put. -/
def indexMapOf (m : LogManager) (obj : JString) : Option (JString → Option ℕ) :=
  (m.headerOf obj).map LogHeader.indexMap

variable {ι D : Type}

/-! ### The loops -/

/-- A series that is filled, and the index of its number in the records. -/
structure Slot (ι : Type) where
  data : ι
  size : ℤ
  ind : Option ℕ

/-- The next place in the ring. -/
def nextPos (size pos : ℤ) : ℤ :=
  if pos < size - 1 then pos + 1 else 0

/-- `data[pos] = value`. -/
def storeAt [DecidableEq ι] (slot : Slot ι) (pos : ℤ) (value : D) :
    Stateful LogException (Arrays ι D) PUnit :=
  if 0 ≤ pos ∧ pos < slot.size then Stateful.write (slot.data, pos) value
  else throw .indexOutOfBounds

/-- The loop over the items of a record. It returns the new places. -/
def storeItems [DecidableEq ι] (value : Option ℕ → Except LogException D) :
    List (Slot ι) → List ℤ → Stateful LogException (Arrays ι D) (List ℤ)
  | slot :: slots, pos :: dataPos => do
    let v ← Stateful.lift (value slot.ind)
    storeAt slot pos v
    let next ← storeItems value slots dataPos
    return nextPos slot.size pos :: next
  | _, _ => pure []

/-- The loop over `count` records from the record `recNo`: `read` goes to a record, and tells how
the numbers of the items are read there. -/
def recordLoop [DecidableEq ι] {P : Type}
    (read : P → ℤ → Except LogException (P × (Option ℕ → Except LogException D)))
    (slots : List (Slot ι)) : ℕ → P → ℤ → List ℤ → Stateful LogException (Arrays ι D) PUnit
  | 0, _, _, _ => pure ⟨⟩
  | count + 1, place, recNo, dataPos => do
    let (place, value) ← Stateful.lift (read place recNo)
    let dataPos ← storeItems value slots dataPos
    recordLoop read slots count place (toLong (recNo + 1)) dataPos

section Reading

variable [JavaDouble D]

/-- `Double.NaN`. -/
def NaN (D : Type) [JavaDouble D] : D :=
  longBitsToDouble 0x7FF8000000000000#64

/-- `RandomAccessFile.seek`. -/
def seek (pos : ℤ) : Except LogException ℤ :=
  if pos < 0 then .error .io else .ok pos

/-- The record is not one of those of the log. -/
def Outside (h : LogHeader) (recNo : ℤ) : Prop :=
  recNo < 0 ∨ h.numRecords ≤ recNo

instance (h : LogHeader) (recNo : ℤ) : Decidable (Outside h recNo) :=
  inferInstanceAs (Decidable (_ ∨ _))

omit [JavaDouble D] in
/-- `record[ind]`. -/
def recordValue (record : List D) (ind : Option ℕ) : Except LogException D :=
  match ind with
  | none => .error .nullPointer
  | some i =>
    match record[i]? with
    | none => .error .indexOutOfBounds
    | some v => .ok v

section File

variable (F : Type) [JavaFloat F] [JavaCasts F D]

/-- Read the record where the file stands into `record`. -/
def readRecord (h : LogHeader) (file : Bytes) (pointer recNo : ℤ) :
    Except LogException (ℤ × (Option ℕ → Except LogException D)) :=
  if Outside h recNo then
    .ok (pointer, recordValue (List.replicate h.itemsPerRec.toNat (NaN D)))
  else do
    let (fs, _) ← (readMany (readFloat F) h.itemsPerRec.toNat).run (file.drop pointer.toNat)
    return (pointer + FLOAT_DATA_SIZE * h.itemsPerRec, recordValue (fs.map toDouble))

/-- Seek a number of a record, and read it. -/
def readNumber (h : LogHeader) (file : Bytes) (recNo : ℤ) (ind : Option ℕ) :
    Except LogException D :=
  if Outside h recNo then .ok (NaN D)
  else
    match ind with
    | none => .error .nullPointer
    | some i => do
      let pos ← seek (toLong (h.headerSize + h.recordSize * recNo + toInt (FLOAT_DATA_SIZE * i)))
      let (f, _) ← (readFloat F).run (file.drop pos.toNat)
      return toDouble f

/-! ### `getData` with the data models -/

variable [DecidableEq ι] (m : LogManager)

/-- Put a data model into the lists of its object, with the place where it is written first. -/
def addDataModel (offset : ℤ) (lists : List (JString × List (Slot ι × ℤ))) (model : DataModel ι) :
    Except LogException (List (JString × List (Slot ι × ℤ))) :=
  let di := model.dataItem
  let ds := model.dataSeries
  match m.indexMapOf di.objectName with
  | none => .error .nullPointer
  | some indexMap =>
    let ind := indexMap (di.key di.attr)
    let pos := (toInt (ds.headPos + offset)).tmod ds.size
    .ok (insertGroup di.objectName (⟨ds.data, ds.size, ind⟩, pos) lists)

/-- Where the file of an object stands before the loop. -/
def seekRecord (h : LogHeader) (pointer recNo : ℤ) : Except LogException ℤ :=
  if recNo < 0 then seek h.headerSize
  else if recNo < h.numRecords then seek (toLong (h.headerSize + h.recordSize * recNo))
  else .ok pointer

/-- Read what the series of an object show. -/
def readObject (filePointer : JString → ℤ) (recNo count : ℤ) (obj : JString)
    (items : List (Slot ι × ℤ)) : Stateful LogException (Arrays ι D) PUnit :=
  match m.headerOf obj with
  | none => throw .nullPointer
  | some h =>
    if h.itemsPerRec < 0 then throw .negativeArraySize
    else
      let file := (m.disk (m.getTempFilePath obj)).getD []
      Stateful.catching LogException.isIO do
        let pointer ← Stateful.lift (seekRecord h (filePointer obj) recNo)
        recordLoop (readRecord F h file) (items.map Prod.fst) count.toNat pointer recNo
          (items.map Prod.snd)

/-- `getData(origin, offset, count, dataModelArray)`. The files stand at `filePointer`. -/
def getData (filePointer : JString → ℤ) (origin offset count : ℤ)
    (dataModelArray : List (DataModel ι)) : Stateful LogException (Arrays ι D) PUnit :=
  if !m.readFile then pure ⟨⟩
  else do
    let lists ← Stateful.lift (dataModelArray.foldlM (addDataModel m offset) [])
    lists.forM fun x ↦ readObject F m filePointer (toLong (origin + offset)) count x.1 x.2

/-! ### `getData` after `initGetData` -/

/-- The fields that `initGetData` prepares: `dsListMap_` and `indexListMap_` as one map, and `data_`
and `dsSize_`. `dataPos_` has as many elements, and is written before it is read. -/
structure GraphFields (ι : Type) where
  listMap : List (JString × List (DataSeries ι × Option ℕ))
  data : List ι
  dsSize : List ℤ

/-- The lists of an object. -/
def GraphFields.listOf (g : GraphFields ι) (obj : JString) : List (DataSeries ι × Option ℕ) :=
  ((g.listMap.find? (·.1 = obj)).map Prod.snd).getD []

/-- Put a data model into the lists of its object. -/
def addPrepared (lists : List (JString × List (DataSeries ι × Option ℕ))) (model : DataModel ι) :
    Except LogException (List (JString × List (DataSeries ι × Option ℕ))) :=
  let di := model.dataItem
  let attr := if di.attr = "attitude".toList then "rotation".toList else di.attr
  match m.indexMapOf di.objectName with
  | none => .error .nullPointer
  | some indexMap =>
    .ok (insertGroup di.objectName (model.dataSeries, indexMap (di.key attr)) lists)

/-- `initGetData`, from what the fields hold before. The keys of a map come in the order
`keySet`. -/
def initGetData (keySet : List JString → List JString) (g : GraphFields ι)
    (dataModelArray : List (DataModel ι)) : Except LogException (GraphFields ι) :=
  if m.header = [] then .ok g
  else do
    let listMap ← dataModelArray.foldlM (addPrepared m) []
    return (keySet (listMap.map Prod.fst)).foldl (fun g obj ↦
      { g with
        data := (g.listOf obj).map fun x ↦ x.1.data
        dsSize := (g.listOf obj).map fun x ↦ x.1.size }) { g with listMap }

/-- The loop that sets `dataPos_`. -/
def dataPositions (offset : ℤ) :
    List (DataSeries ι × Option ℕ) → List ℤ → Except LogException (List ℤ)
  | [], _ => .ok []
  | _ :: _, [] => .error .indexOutOfBounds
  | x :: dsList, size :: dsSize => do
    let dataPos ← dataPositions offset dsList dsSize
    return (toInt (x.1.headPos + offset)).tmod size :: dataPos

/-- `_getData`. -/
def getObjectData (recNo count : ℤ) (obj : JString) (slots : List (Slot ι)) (dataPos : List ℤ) :
    Stateful LogException (Arrays ι D) PUnit :=
  match m.headerOf obj with
  | none => throw .nullPointer
  | some h =>
    if h.itemsPerRec < 0 then throw .negativeArraySize
    else if !m.readFile then throw .nullPointer
    else
      let file := (m.disk (m.getTempFilePath obj)).getD []
      Stateful.catching LogException.isIO
        (recordLoop (fun _ recNo ↦ .ok (PUnit.unit, readNumber F h file recNo)) slots count.toNat
          PUnit.unit recNo dataPos)

/-- `getData(origin, offset, count)`. -/
def getPreparedData (keySet : List JString → List JString) (g : GraphFields ι)
    (origin offset count : ℤ) : Stateful LogException (Arrays ι D) PUnit :=
  (keySet (g.listMap.map Prod.fst)).forM fun obj ↦ do
    let dataPos ← Stateful.lift (dataPositions offset (g.listOf obj) g.dsSize)
    let slots := (g.data.zip (g.dsSize.zip ((g.listOf obj).map Prod.snd))).map fun x ↦
      (⟨x.1, x.2.1, x.2.2⟩ : Slot ι)
    getObjectData F m (toLong (origin + offset)) count obj slots dataPos

/-- `initGetData(dataModelArray)`, and then `getData(origin, offset, count)`. -/
def initAndGetData (keySet : List JString → List JString) (g : GraphFields ι)
    (origin offset count : ℤ) (dataModelArray : List (DataModel ι)) :
    Stateful LogException (Arrays ι D) PUnit := do
  let g ← Stateful.lift (initGetData m keySet g dataModelArray)
  getPreparedData F m keySet g origin offset count

end File

end Reading

end LogManager

end OpenHRP
