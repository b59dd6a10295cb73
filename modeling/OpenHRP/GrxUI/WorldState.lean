import OpenHRP.GrxUI.LogRecording
import OpenHRP.Foundations.Stateful

/-!
# World states in the log

A world state is what a simulation reports for one time: the state of every character and the
collisions. `GrxWorldStateItem._toLogFile` flattens the characters into records of the type `float`,
and `_getValueFromLog` reads such records back into a world state.
-/

namespace OpenHRP

/-! ### World states -/

/-- The position of a link. A link that is not logged has none. -/
structure LinkPosition (D : Type) where
  p : Option (Fin 3 → D)
  R : Option (Fin 9 → D)

structure SensorState (D : Type) where
  q : List D
  u : List D
  force : List (List D)
  rateGyro : List (List D)
  accel : List (List D)
  range : Option (List (List D))

structure CharacterStateEx (D : Type) where
  characterName : JString
  position : List (LinkPosition D)
  sensorState : Option (SensorState D)
  targetState : Option (List D)
  servoState : Option (List (BitVec 32))
  powerState : Option (List D)

/-- `WorldStateEx`. A collision is modelled by its points. -/
structure WorldStateEx (D : Type) where
  time : D
  charList : List (CharacterStateEx D)
  collisions : Option (List (Option (List (CollisionPoint D))))

/-- Two world states with the same time, link positions and sensor values. -/
def WorldStateEx.SameRecord {D : Type} (v w : WorldStateEx D) : Prop :=
  v.time = w.time ∧
    v.charList.map (fun c ↦ (c.characterName, c.position, c.sensorState)) =
      w.charList.map fun c ↦ (c.characterName, c.position, c.sensorState)

/-- The conversions between rotation matrices and axes with angles: `AxisAngle4d.setMatrix` gives
the axis and the angle of a matrix, and `Matrix3d.set` the matrix of these. -/
class AxisAngles (D : Type) where
  setMatrix : (Fin 9 → D) → Fin 4 → D
  setAxisAngle : (Fin 4 → D) → Fin 9 → D

/-! ### Rounding -/

section Round

variable (F : Type) {D : Type} [JavaCasts F D]

/-- A number after it has been kept as a `float`. -/
def roundFloat (d : D) : D :=
  toDouble (toFloat d : F)

/-- The position of a link after its numbers, and those of its axis and angle, have been kept as
`float`s. -/
def LinkPosition.rounded [AxisAngles D] (lpos : LinkPosition D) : LinkPosition D where
  p := lpos.p.map fun p k ↦ roundFloat F (p k)
  R := lpos.R.map fun R ↦ AxisAngles.setAxisAngle fun k ↦ roundFloat F (AxisAngles.setMatrix R k)

def SensorState.rounded (sdata : SensorState D) : SensorState D where
  q := sdata.q.map (roundFloat F)
  u := sdata.u.map (roundFloat F)
  force := sdata.force.map (·.map (roundFloat F))
  rateGyro := sdata.rateGyro.map (·.map (roundFloat F))
  accel := sdata.accel.map (·.map (roundFloat F))
  range := sdata.range.map (·.map (·.map (roundFloat F)))

/-- A world state up to the conversions of its time, its link positions and its sensor values. -/
def WorldStateEx.rounded [AxisAngles D] (w : WorldStateEx D) : WorldStateEx D :=
  { w with
    time := roundFloat F w.time
    charList := w.charList.map fun c ↦
      { c with
        position := c.position.map (LinkPosition.rounded F)
        sensorState := c.sensorState.map (SensorState.rounded F) } }

end Round

/-! ### Writing records -/

/-- What is assigned to one number of a record, or what is thrown before. -/
abbrev Cell (F : Type) := Except LogException F

/-- Assign the numbers of a record in their order, until an assignment throws. -/
def fillRecord {F : Type} : List (Cell F) → List F → List F × Option LogException
  | [], record => (record, none)
  | .error e :: _, record => (record, some e)
  | .ok _ :: _, [] => ([], some .indexOutOfBounds)
  | .ok f :: cells, _ :: record =>
    let (record, thrown) := fillRecord cells record
    (f :: record, thrown)

section Cells

variable (F : Type) {D : Type} [JavaFloat F] [JavaCasts F D] [AxisAngles D]

/-- The numbers of some `double`s. -/
def floatCells (ds : List D) : List (Cell F) :=
  ds.map fun d ↦ .ok (toFloat d)

def LinkPosition.cells (lpos : LinkPosition D) : List (Cell F) :=
  (match lpos.p with
    | none => [.error .nullPointer]
    | some p => floatCells F (List.ofFn p)) ++
  match lpos.R with
    | none => [.error .nullPointer]
    | some R => floatCells F (List.ofFn (AxisAngles.setMatrix R))

/-- The links that are logged: all of them, or the root. -/
def positionCells (storeAllPos : Bool) (position : List (LinkPosition D)) : List (Cell F) :=
  if storeAllPos then position.flatMap (LinkPosition.cells F)
  else
    match position with
    | [] => [.error .indexOutOfBounds]
    | lpos :: _ => lpos.cells F

/-- The angles and torques of the joints. -/
def jointCells : List D → List D → List (Cell F)
  | q :: qs, u :: us => .ok (toFloat q) :: .ok (toFloat u) :: jointCells qs us
  | q :: _, [] => [.ok (toFloat q), .error .indexOutOfBounds]
  | [], _ => []

def SensorState.cells (sdata : SensorState D) : List (Cell F) :=
  jointCells F sdata.q sdata.u ++ floatCells F sdata.force.flatten ++
    floatCells F sdata.rateGyro.flatten ++ floatCells F sdata.accel.flatten ++
    floatCells F (sdata.range.getD []).flatten

/-- The record of a character. The bits of a servo state are those of its number. -/
def CharacterStateEx.cells (storeAllPos : Bool) (time : D) (cpos : CharacterStateEx D) :
    List (Cell F) :=
  .ok (toFloat time) :: positionCells F storeAllPos cpos.position ++
    (match cpos.sensorState with
      | none => []
      | some sdata => sdata.cells F) ++
    floatCells F (cpos.targetState.getD []) ++
    (cpos.servoState.getD []).map (fun bits ↦ .ok (intBitsToFloat bits)) ++
    floatCells F (cpos.powerState.getD [])

end Cells

/-! ### Reading records -/

/-- Take the numbers of a record one after the other. -/
abbrev RecordReader (F α : Type) := StateT (List F) (Except LogException) α

section Read

variable {F D : Type} [JavaFloat F] [JavaCasts F D] [AxisAngles D]

/-- `f[k++]`. -/
def nextFloat : RecordReader F F
  | [] => .error .indexOutOfBounds
  | f :: fs => .ok (f, fs)

def nextDouble : RecordReader F D :=
  toDouble <$> nextFloat

/-- Overwrite the numbers of an array. -/
def readArray (ds : List D) : RecordReader F (List D) :=
  ds.mapM fun _ ↦ nextDouble

/-- Overwrite the position of a link, which has to be there. -/
def LinkPosition.read (lpos : LinkPosition D) : RecordReader F (LinkPosition D) := do
  let p₀ ← nextDouble
  if lpos.p.isNone then throw .nullPointer
  let p₁ ← nextDouble
  let p₂ ← nextDouble
  let x ← nextDouble
  let y ← nextDouble
  let z ← nextDouble
  let angle ← nextDouble
  if lpos.R.isNone then throw .nullPointer
  return { p := some ![p₀, p₁, p₂], R := some (AxisAngles.setAxisAngle ![x, y, z, angle]) }

/-- The links that are logged; the others are left without a position. -/
def readPositions (storeAllPos : Bool) :
    List (LinkPosition D) → RecordReader F (List (LinkPosition D))
  | [] => pure []
  | root :: links => do
    let root ← root.read
    let links ← links.mapM fun lpos ↦
      if storeAllPos then lpos.read else pure { p := none, R := none }
    return root :: links

def readJoints : List D → List D → RecordReader F (List D × List D)
  | _ :: qs, _ :: us => do
    let q ← nextDouble
    let u ← nextDouble
    let (qs, us) ← readJoints qs us
    return (q :: qs, u :: us)
  | _ :: _, [] => do
    let _ ← nextFloat
    let _ ← nextFloat
    throw .indexOutOfBounds
  | [], us => pure ([], us)

def SensorState.read (sdata : SensorState D) : RecordReader F (SensorState D) := do
  let (q, u) ← readJoints sdata.q sdata.u
  let force ← sdata.force.mapM readArray
  let rateGyro ← sdata.rateGyro.mapM readArray
  let accel ← sdata.accel.mapM readArray
  let range ← sdata.range.mapM (·.mapM readArray)
  return { q, u, force, rateGyro, accel, range }

/-- Overwrite the state of a character. The time of the record is returned with it. -/
def CharacterStateEx.read (storeAllPos : Bool) (cpos : CharacterStateEx D) :
    RecordReader F (D × CharacterStateEx D) := do
  let time ← nextDouble
  let position ← readPositions storeAllPos cpos.position
  let sensorState ← cpos.sensorState.mapM SensorState.read
  let targetState ← cpos.targetState.mapM readArray
  let servoState ← cpos.servoState.mapM (·.mapM fun _ ↦ floatToIntBits <$> nextFloat)
  let powerState ← cpos.powerState.mapM readArray
  return (time, { cpos with position, sensorState, targetState, servoState, powerState })

end Read

/-- A log manager that is written to, and the buffers of the records: `recDat_`. -/
structure LogBuffer (F : Type) where
  temp : LogManager
  recDat : Option (List (List F))

namespace LogBuffer

variable {F D : Type}

def setTemp (b : LogBuffer F) (temp : LogManager) : LogBuffer F :=
  { b with temp }

def setRecDat (b : LogBuffer F) (recDat : List (List F)) : LogBuffer F :=
  { b with recDat := some recDat }

variable [JavaFloat F] [JavaDouble D] [JavaCasts F D] [AxisAngles D]

/-- Fill the buffer of a character, and put it. -/
def writeRecord (storeAllPos : Bool) (time : D) (cpos : CharacterStateEx D) (i : ℕ) :
    Stateful LogException (LogBuffer F) PUnit := do
  let b ← get
  match b.recDat with
  | none => throw .nullPointer
  | some recDat =>
    match recDat[i]? with
    | none => throw .indexOutOfBounds
    | some buffer =>
      let (record, thrown) := fillRecord (cpos.cells F storeAllPos time) buffer
      modify (·.setRecDat (recDat.set i record))
      match thrown with
      | some e => throw e
      | none => modify fun b ↦ b.setTemp (b.temp.tryPut (cpos.characterName, record))

/-- The points of the collisions that have some. -/
def collisionPoints (collisions : List (Option (List (CollisionPoint D)))) :
    List (CollisionPoint D) :=
  collisions.flatMap (·.getD [])

/-- The time of the log at a time of the simulation, which is rounded to `float`. -/
def logTime (F : Type) [JavaCasts F D] (time : D) : Time :=
  .ofSeconds (toDouble (toFloat time : F) : D)

/-- Set the time, and put the collision points. -/
def writeCollisions (newStat : WorldStateEx D) (m : LogManager) : LogManager :=
  let m := m.setTime (logTime F newStat.time)
  match newStat.collisions with
  | none | some [] => m
  | some cols => m.tryPutCollisionPointData F (collisionPoints cols)

/-- `_toLogFile`. -/
def toLogFile (storeAllPos : Bool) (newStat : WorldStateEx D) :
    Stateful LogException (LogBuffer F) PUnit := do
  modify fun b ↦ b.setTemp (writeCollisions (F := F) newStat b.temp)
  newStat.charList.zipIdx.forM fun (cpos, i) ↦ writeRecord storeAllPos newStat.time cpos i

end LogBuffer

end OpenHRP
