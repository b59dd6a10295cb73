import OpenHRP.ControllerBridge.EnvironmentVariables
import Mathlib.Algebra.Ring.Defs

/-!
# The options of the controller bridge

The values of the options are strings whose fields are separated by colons, and the owners of a port
by commas. Each of the four functions here takes one value, and either throws or makes an entry of
the configuration from its fields.

A port with a name and no known data type, and a rate without a number, are read beyond their last
field; a data type before two more fields leaves the last one out; and an entry whose name is there
already is dropped. `PortCondition` and `TimeRateCondition` leave out these cases.
-/

namespace OpenHRP

open StdString

/-! ### The configuration -/

inductive DataTypeId
  | INVALID_DATA_TYPE
  | JOINT_VALUE
  | JOINT_VELOCITY
  | JOINT_ACCELERATION
  | JOINT_TORQUE
  | EXTERNAL_FORCE
  | ABS_TRANSFORM
  | ABS_VELOCITY
  | ABS_ACCELERATION
  | FORCE_SENSOR
  | RATE_GYRO_SENSOR
  | ACCELERATION_SENSOR
  | COLOR_IMAGE
  | GRAYSCALE_IMAGE
  | DEPTH_IMAGE
  | RANGE_SENSOR
  | CONSTRAINT_FORCE
  | RATE_GYRO_SENSOR2
  | ACCELERATION_SENSOR2
  | ABS_TRANSFORM2
  deriving DecidableEq

open DataTypeId

/-- The settings of a port. The number of the owner is not set for a port without one. -/
structure PortInfo (K : Type) where
  portName : StdString
  dataTypeId : DataTypeId
  dataOwnerName : List StdString
  dataOwnerId : Option ℤ
  stepTime : K

structure PortConnection where
  robotPortName : StdString
  controllerInstanceName : StdString
  controllerPortName : StdString

structure ModuleInfo where
  fileName : StdString
  componentName : StdString
  initFuncName : StdString
  isLoaded : Bool

/-- The configuration. Maps are lists of entries. -/
structure BridgeConf (K : Type) where
  isProcessingConfigFile : Bool
  outPortInfos : List (StdString × PortInfo K)
  inPortInfos : List (StdString × PortInfo K)
  moduleInfoList : List ModuleInfo
  portConnections : List PortConnection
  timeRateMap : List (StdString × K)

/-- The functions of the libraries: the environment, the conversions of numbers, and the name of a
file without its directories and its extension. -/
structure BridgeLib (K : Type) where
  getenv : StdString → Option StdString
  atoi : StdString → ℤ
  atof : StdString → K
  basename : StdString → StdString

/-- What is thrown, or a read behind the end of an array. -/
inductive BridgeError
  | invalidArgument (what : String)
  | outOfRange
  deriving DecidableEq

def labelToDataTypeIdMap : List (StdString × DataTypeId) :=
  [("JOINT_VALUE".toList, JOINT_VALUE),
    ("JOINT_VELOCITY".toList, JOINT_VELOCITY),
    ("JOINT_ACCELERATION".toList, JOINT_ACCELERATION),
    ("JOINT_TORQUE".toList, JOINT_TORQUE),
    ("EXTERNAL_FORCE".toList, EXTERNAL_FORCE),
    ("ABS_TRANSFORM".toList, ABS_TRANSFORM),
    ("ABS_VELOCITY".toList, ABS_VELOCITY),
    ("ABS_ACCELERATION".toList, ABS_ACCELERATION),
    ("FORCE_SENSOR".toList, FORCE_SENSOR),
    ("RATE_GYRO_SENSOR".toList, RATE_GYRO_SENSOR),
    ("ACCELERATION_SENSOR".toList, ACCELERATION_SENSOR),
    ("COLOR_IMAGE".toList, COLOR_IMAGE),
    ("GRAYSCALE_IMAGE".toList, GRAYSCALE_IMAGE),
    ("DEPTH_IMAGE".toList, DEPTH_IMAGE),
    ("RANGE_SENSOR".toList, RANGE_SENSOR),
    ("CONSTRAINT_FORCE".toList, CONSTRAINT_FORCE),
    ("RATE_GYRO_SENSOR2".toList, RATE_GYRO_SENSOR2),
    ("ACCELERATION_SENSOR2".toList, ACCELERATION_SENSOR2),
    ("ABS_TRANSFORM2".toList, ABS_TRANSFORM2)]

/-- The data type with a label. -/
def dataTypeOf (label : StdString) : Option DataTypeId := labelToDataTypeIdMap.lookup label

/-- Insertion into a map, which keeps an entry that is there. -/
def insertEntry {V : Type*} (m : List (StdString × V)) (entry : StdString × V) :
    List (StdString × V) :=
  if (m.lookup entry.1).isSome then m else m ++ [entry]

/-! ### The functions -/

/-- A field of a value. -/
def parameterAt (parameters : List StdString) (j : ℕ) : Except BridgeError StdString :=
  (parameters[j]?).elim (.error .outOfRange) .ok

def isDigits (owner : StdString) : Bool := owner.all fun c ↦ '0' ≤ c && c ≤ '9'

section Parsing

variable {K : Type} (lib : BridgeLib K)

/-- The fields of a string. Those of a configuration file are expanded. -/
def extractParameters (isProcessingConfigFile : Bool) (str : StdString) (delimiter : Char) :
    Except BridgeError (List StdString) :=
  if isProcessingConfigFile then
    (split str delimiter).mapM fun field ↦
      (expandEnvironmentVariables lib.getenv field).elim (.error .outOfRange) .ok
  else .ok (split str delimiter)

/-- The loop body for the owners of a port, the number of which is `size`. -/
def addOwner (size : ℕ) (info : PortInfo K) (owner : StdString) :
    Except BridgeError (PortInfo K) :=
  if isDigits owner then
    if size > 1 then .error (.invalidArgument "invalid VisionSensor setting")
    else .ok { info with dataOwnerId := some (lib.atoi owner), dataOwnerName := [] }
  else .ok { info with dataOwnerId := some (-1), dataOwnerName := info.dataOwnerName ++ [owner] }

/-- The loop over the places `1` and `2`, written out: the data type is looked for at both, and a
field at the first one that is no data type has the owners. The place behind the data type is
returned with the settings. -/
def readDataType (isProcessingConfigFile : Bool) (parameters : List StdString)
    (info : PortInfo K) : Except BridgeError (PortInfo K × ℕ) := do
  let st ← parameterAt parameters 1
  match dataTypeOf st with
  | some dataTypeId => return ({ info with dataTypeId }, 2)
  | none =>
    let owners ← extractParameters lib isProcessingConfigFile st ','
    let info ← owners.foldlM (addOwner lib owners.length) info
    let label ← parameterAt parameters 2
    match dataTypeOf label with
    | some dataTypeId => return ({ info with dataTypeId }, 3)
    | none => throw (.invalidArgument "invalid data type")

variable [Zero K]

/-- What follows the loop over the places: the period, and the check of the owners. -/
def finishPortInfo (parameters : List StdString) (info : PortInfo K) (j : ℕ) :
    Except BridgeError (PortInfo K) := do
  let stepTime ← if j < parameters.length then lib.atof <$> parameterAt parameters j else pure 0
  if info.dataTypeId = CONSTRAINT_FORCE ∧ info.dataOwnerName.length > 1 then
    throw (.invalidArgument "invalid in port setting")
  return { info with stepTime }

/-- The settings of a port from its fields. -/
def readPortInfo (isProcessingConfigFile : Bool) (parameters : List StdString) :
    Except BridgeError (PortInfo K) := do
  let n := parameters.length
  if n < 2 || n > 4 then throw (.invalidArgument "invalid in port setting")
  let portName ← parameterAt parameters 0
  let (info, j) ← readDataType lib isProcessingConfigFile parameters
    ⟨portName, INVALID_DATA_TYPE, [], none, 0⟩
  finishPortInfo lib parameters info j

/-- The settings of a port from its value. -/
def parsePortInfo (isProcessingConfigFile : Bool) (port : StdString) :
    Except BridgeError (PortInfo K) :=
  (extractParameters lib isProcessingConfigFile port ':').bind
    (readPortInfo lib isProcessingConfigFile)

end Parsing

/-- The end of a function that adds what it has parsed. -/
def store {α σ : Type} (parsed : Except BridgeError α) (s : σ) (add : α → σ) :
    Except BridgeError Unit × σ :=
  match parsed with
  | .error e => (.error e, s)
  | .ok a => (.ok (), add a)

/-- The settings of all ports of an option. -/
def setPortInfos {K : Type} [Zero K] (lib : BridgeLib K) (isProcessingConfigFile : Bool) :
    List StdString → List (StdString × PortInfo K) →
      Except BridgeError Unit × List (StdString × PortInfo K)
  | [], portInfos => (.ok (), portInfos)
  | port :: ports, portInfos =>
    match parsePortInfo lib isProcessingConfigFile port with
    | .error e => (.error e, portInfos)
    | .ok info =>
      setPortInfos lib isProcessingConfigFile ports (insertEntry portInfos (info.portName, info))

namespace BridgeConf

variable {K : Type} (lib : BridgeLib K) (conf : BridgeConf K) (value : StdString)

def parsePortConnection : Except BridgeError PortConnection := do
  let parameters ← extractParameters lib conf.isProcessingConfigFile value ':'
  let n := parameters.length
  if n < 2 || n > 3 then throw (.invalidArgument "Invalied port connection")
  let robotPortName ← parameterAt parameters 0
  if n = 2 then
    if conf.moduleInfoList.length ≠ 1 then
      throw (.invalidArgument "RTC instance name must be specified in a connection option")
    let controllerPortName ← parameterAt parameters 1
    return ⟨robotPortName, [], controllerPortName⟩
  else
    let controllerInstanceName ← parameterAt parameters 1
    let controllerPortName ← parameterAt parameters 2
    return ⟨robotPortName, controllerInstanceName, controllerPortName⟩

def addPortConnection : Except BridgeError Unit × BridgeConf K :=
  store (conf.parsePortConnection lib value) conf fun connection ↦
    { conf with portConnections := conf.portConnections ++ [connection] }

def parseModuleInfo : Except BridgeError ModuleInfo := do
  let parameters ← extractParameters lib conf.isProcessingConfigFile value ':'
  if parameters.length = 0 || parameters.length > 2 then
    throw (.invalidArgument "invalid module set")
  let fileName ← parameterAt parameters 0
  let componentName := lib.basename fileName
  let initFuncName ←
    if parameters.length = 1 then pure (componentName ++ "Init".toList)
    else parameterAt parameters 1
  return ⟨fileName, componentName, initFuncName, false⟩

def addModuleInfo : Except BridgeError Unit × BridgeConf K :=
  store (conf.parseModuleInfo lib value) conf fun info ↦
    { conf with moduleInfoList := conf.moduleInfoList ++ [info] }

def parseTimeRateInfo : Except BridgeError (StdString × K) := do
  let parameters ← extractParameters lib conf.isProcessingConfigFile value ':'
  if parameters.length = 0 || parameters.length > 2 then
    throw (.invalidArgument "invalid time rate set")
  let name ← parameterAt parameters 0
  let rate ← parameterAt parameters 1
  return (name, lib.atof rate)

def addTimeRateInfo : Except BridgeError Unit × BridgeConf K :=
  store (conf.parseTimeRateInfo lib value) conf fun entry ↦
    { conf with timeRateMap := insertEntry conf.timeRateMap entry }

end BridgeConf

/-! ### What the functions are for -/

/-- A value is rejected, and nothing changes, or one entry is added. -/
def ParsedOrRejected {α σ : Type} (run : Except BridgeError Unit × σ) (s : σ) (add : α → σ)
    (IsEntry : α → Prop) : Prop :=
  (∃ what, run = (.error (.invalidArgument what), s)) ∨
    ∃ entry, run = (.ok (), add entry) ∧ IsEntry entry

section Entries

variable {K : Type} (lib : BridgeLib K)

/-- The fields of a string. -/
def fieldsOf (isProcessingConfigFile : Bool) (str : StdString) (delimiter : Char) :
    List StdString :=
  (extractParameters lib isProcessingConfigFile str delimiter).toOption.getD []

/-- The owners of a port are one number or names. -/
inductive IsOwner : List StdString → List StdString → Option ℤ → Prop
  | number {owner : StdString} (hne : owner ≠ []) (h : isDigits owner = true) :
      IsOwner [owner] [] (some (lib.atoi owner))
  | names {owners : List StdString} (h : ∀ owner ∈ owners, isDigits owner = false) :
      IsOwner owners owners (some (-1))

/-- The settings of a port are its fields: a name, the owners if there are any, the data type, and
the period if there is one. -/
inductive IsPortInfo [Zero K] (isProcessingConfigFile : Bool) : List StdString → PortInfo K → Prop
  | typed {name label : StdString} {t : DataTypeId} (h : dataTypeOf label = some t) :
      IsPortInfo isProcessingConfigFile [name, label] ⟨name, t, [], none, 0⟩
  | timed {name label time : StdString} {t : DataTypeId} (h : dataTypeOf label = some t) :
      IsPortInfo isProcessingConfigFile [name, label, time] ⟨name, t, [], none, lib.atof time⟩
  | owned {name st label : StdString} {t : DataTypeId} {names : List StdString} {id : Option ℤ}
      (howner : IsOwner lib (fieldsOf lib isProcessingConfigFile st ',') names id)
      (h : dataTypeOf label = some t) :
      IsPortInfo isProcessingConfigFile [name, st, label] ⟨name, t, names, id, 0⟩
  | ownedTimed {name st label time : StdString} {t : DataTypeId} {names : List StdString}
      {id : Option ℤ} (howner : IsOwner lib (fieldsOf lib isProcessingConfigFile st ',') names id)
      (h : dataTypeOf label = some t) :
      IsPortInfo isProcessingConfigFile [name, st, label, time]
        ⟨name, t, names, id, lib.atof time⟩

/-- A connection to a port of the only module, or of a module that is named. -/
inductive IsPortConnection (numModules : ℕ) : List StdString → PortConnection → Prop
  | unnamed {robotPort port : StdString} (h : numModules = 1) :
      IsPortConnection numModules [robotPort, port] ⟨robotPort, [], port⟩
  | named {robotPort instanceName port : StdString} :
      IsPortConnection numModules [robotPort, instanceName, port] ⟨robotPort, instanceName, port⟩

inductive IsModuleInfo : List StdString → ModuleInfo → Prop
  | file {fileName : StdString} : IsModuleInfo [fileName]
      ⟨fileName, lib.basename fileName, lib.basename fileName ++ "Init".toList, false⟩
  | init {fileName initFuncName : StdString} : IsModuleInfo [fileName, initFuncName]
      ⟨fileName, lib.basename fileName, initFuncName, false⟩

/-! ### When they do it -/

/-- Owners that are rejected: several, and one of them without a character that is no digit. -/
def OwnersRejected (owners : List StdString) : Prop :=
  1 < owners.length ∧ ∃ owner ∈ owners, isDigits owner = true

/-- A port with owners is rejected, or its name is new and its owners are not just empty. -/
def OwnedCondition (portInfos : List (StdString × PortInfo K)) (name : StdString)
    (owners : List StdString) (label : StdString) : Prop :=
  OwnersRejected owners ∨ dataTypeOf label = none ∨
    dataTypeOf label = some CONSTRAINT_FORCE ∧ 1 < owners.length ∨
      portInfos.lookup name = none ∧ owners ≠ [[]]

/-- The condition on the fields of a port, by their number. -/
def PortCondition (isProcessingConfigFile : Bool) (portInfos : List (StdString × PortInfo K)) :
    List StdString → Prop
  | [name, st] =>
    if (dataTypeOf st).isSome then portInfos.lookup name = none
    else OwnersRejected (fieldsOf lib isProcessingConfigFile st ',')
  | [name, st, label] =>
    if (dataTypeOf st).isSome then portInfos.lookup name = none
    else OwnedCondition portInfos name (fieldsOf lib isProcessingConfigFile st ',') label
  | [name, st, label, _] =>
    dataTypeOf st = none ∧
      OwnedCondition portInfos name (fieldsOf lib isProcessingConfigFile st ',') label
  | _ => True

/-- A rate has a number, and a name that is new. -/
def TimeRateCondition (timeRateMap : List (StdString × K)) : List StdString → Prop
  | [_] => False
  | [name, _] => timeRateMap.lookup name = none
  | _ => True

end Entries

end OpenHRP
