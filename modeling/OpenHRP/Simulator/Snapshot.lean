import OpenHRP.Foundations.Runs
import OpenHRP.Model.Body
import OpenHRP.Model.ForwardKinematics

/-!
# Snapshots of the dynamics simulator

`DynamicsSimulator_impl` answers `getWorldState` and `getCharacterSensorState` from two snapshots of
the world, and takes a new snapshot only when its flag says that the world has changed. An operation
that changes the world is to raise the flags.

Three operations do not: a repeated `init` puts every body back to its initial configuration,
`initSimulation` clears the sensors, and `calcCharacterInverseKinematics` raises the flags only when
the target was reached. Between them the snapshots stay current (`fresh_run_of_heeds`).

What the simulator calls is a parameter (`Services`): the dynamics of a step, inverse kinematics and
the collision detector. Range sensors, which follow a timer of their own, are left out.
-/

open Matrix

namespace OpenHRP.Snapshot

variable {ι K C : Type*}

/-! ### The world -/

/-- What does not change of a body once it is registered. -/
structure Character (ι K : Type*) where
  name : String
  tree : LinkTree ι
  linkName : ι → String
  Rs : ι → Matrix33 K
  isCrawler : ι → Bool
  /-- `jointIdToLinkArray`; `none` is an empty joint. -/
  joints : List (Option ι)
  defaultRootPosition : Vector3 K
  defaultRootAttitude : Matrix33 K
  numForceSensors : ℕ
  numRateGyros : ℕ
  numAccelSensors : ℕ

/-- What changes of a body. -/
structure BodyState (ι K : Type*) where
  links : Store ι K
  isHighGainMode : ι → Bool
  /-- Force and torque of the force sensor with an id. -/
  forceSensor : ℕ → Vector3 K × Vector3 K
  rateGyro : ℕ → Vector3 K
  accelSensor : ℕ → Vector3 K

/-- A `World`, with the mark that its constraint solver puts on constrained bodies. -/
structure World (ι K : Type*) where
  currentTime : K
  timeStep : K
  isEulerMethod : Bool
  sensorsAreEnabled : Bool
  body : ℕ → BodyState ι K
  hasConstrainedLinks : ℕ → Bool

/-- `World::bodyIndex`: the last body that was registered under a name. The empty name is not
entered into the map. -/
def bodyIndex (chars : List (Character ι K)) (name : String) : Option ℕ :=
  if name = "" then none
  else (chars.zipIdx.filter fun c ↦ c.1.name = name).getLast?.map Prod.snd

/-- `Body::link(name)`: the map from names keeps the last link of a name. -/
def Character.link (c : Character ι K) (name : String) : Option ι :=
  (c.tree.links.filter fun i ↦ c.linkName i = name).getLast?

namespace World

def setBody (w : World ι K) (i : ℕ) (b : BodyState ι K) : World ι K :=
  { w with body := Function.update w.body i b }

/-- An operation on every body of the world. -/
def mapBodies (chars : List (Character ι K))
    (f : Character ι K → BodyState ι K → BodyState ι K) (w : World ι K) : World ι K :=
  { w with body := fun i ↦ (chars[i]?).elim (w.body i) fun c ↦ f c (w.body i) }

end World

namespace BodyState

section Zero

variable [Zero K]

/-- `Body::clearSensorValues`. -/
def clearSensorValues (b : BodyState ι K) : BodyState ι K :=
  { b with forceSensor := fun _ ↦ (0, 0), rateGyro := fun _ ↦ 0, accelSensor := fun _ ↦ 0 }

variable [DecidableEq ι]

/-- `Body::clearExternalForces`. -/
def clearExternalForces (c : Character ι K) (b : BodyState ι K) : BodyState ι K :=
  { b with
    links := fun i ↦
      if i ∈ c.tree.links then { b.links i with fext := 0, tauext := 0 } else b.links i }

end Zero

variable [Field K] [CMath K] [DecidableEq ι]

/-- `Body::calcForwardKinematics(true, true)`. -/
def calcForwardKinematics (c : Character ι K) (b : BodyState ι K) : BodyState ι K :=
  { b with
    links := OpenHRP.calcForwardKinematics c.tree (.find c.tree c.tree.root false true) true true
      b.links }

/-- The root as `initializeConfiguration` places it. -/
def placeRoot (c : Character ι K) (link : Link K) : Link K :=
  { link with
    p := c.defaultRootPosition
    R := c.defaultRootAttitude * (c.Rs c.tree.root)ᵀ
    v := 0
    dv := 0
    w := 0
    dw := 0
    vo := 0
    dvo := 0 }

/-- The joint of a link as `initializeConfiguration` leaves it. -/
def resetJoint (link : Link K) : Link K :=
  { link with u := 0, q := 0, dq := 0, ddq := 0 }

/-- `Body::initializeConfiguration`. -/
def initializeConfiguration (c : Character ι K) (b : BodyState ι K) : BodyState ι K :=
  let links := Function.update b.links c.tree.root (placeRoot c (b.links c.tree.root))
  let links := fun i ↦ if i ∈ c.tree.links then resetJoint (links i) else links i
  clearExternalForces c (calcForwardKinematics c { b with links := links })

end BodyState

/-! ### What a client reads -/

structure LinkPosition (K : Type*) where
  p : Vector3 K
  R : Matrix33 K

structure CharacterPosition (K : Type*) where
  characterName : String
  linkPositions : List (LinkPosition K)

structure SensorState (K : Type*) where
  q : List K
  dq : List K
  u : List K
  force : List (Vector3 K × Vector3 K)
  rateGyro : List (Vector3 K)
  accel : List (Vector3 K)

/-- The answer to `getWorldState`. -/
structure WorldState (K C : Type*) where
  time : K
  characterPositions : List (CharacterPosition K)
  collisions : C

section Current

variable [Field K]

/-- The position and the segment attitude of every link of a body. -/
def linkPositions (c : Character ι K) (b : BodyState ι K) : List (LinkPosition K) :=
  c.tree.links.map fun i ↦ ⟨(b.links i).p, (b.links i).R * c.Rs i⟩

/-- The joint values and the sensor values of a body. -/
def sensorState (c : Character ι K) (b : BodyState ι K) : SensorState K where
  q := c.joints.map fun joint ↦ joint.elim 0 fun i ↦ (b.links i).q
  dq := c.joints.map fun joint ↦ joint.elim 0 fun i ↦ (b.links i).dq
  u := c.joints.map fun joint ↦ joint.elim 0 fun i ↦ (b.links i).u
  force := (List.range c.numForceSensors).map b.forceSensor
  rateGyro := (List.range c.numRateGyros).map b.rateGyro
  accel := (List.range c.numAccelSensors).map b.accelSensor

/-- The positions of all characters as they are. -/
def currentPositions (chars : List (Character ι K)) (w : World ι K) : List (CharacterPosition K) :=
  chars.mapIdx fun i c ↦ ⟨c.name, linkPositions c (w.body i)⟩

/-- The sensor states of all characters as they are. -/
def currentSensorStates (chars : List (Character ι K)) (w : World ι K) : List (SensorState K) :=
  chars.mapIdx fun i c ↦ sensorState c (w.body i)

/-- The entry of a character in a list of sensor states; an unknown name reads an empty one. -/
def sensorStateOf (chars : List (Character ι K)) (states : List (SensorState K)) (name : String) :
    SensorState K :=
  ((bodyIndex chars name).bind fun i ↦ states[i]?).getD ⟨[], [], [], [], [], []⟩

end Current

/-! ### The simulator -/

/-- What the simulator calls. -/
structure Services (ι K C : Type*) where
  /-- `World::calcNextState`. -/
  calcNextState : World ι K → C → World ι K
  /-- `World::initialize` after the sensors are cleared, and the initialisation of the solver. -/
  startDynamics : World ι K → World ι K
  /-- The joint path between two links and its `calcInverseKinematics`: whether the target was
  reached, and the links as they are left. `none` when the path is empty. -/
  calcInverseKinematics : Character ι K → ι → ι → Vector3 K → Matrix33 K → Store ι K →
    Option (Bool × Store ι K)
  /-- `queryContactDeterminationForDefinedPairs`. -/
  queryContactDetermination : List (CharacterPosition K) → C × Bool
  /-- `queryIntersectionForDefinedPairs`. -/
  queryIntersection : List (CharacterPosition K) → Bool

structure DynamicsSimulator (ι K C : Type*) where
  world : World ι K
  collisions : C
  allCharacterPositions : List (CharacterPosition K)
  needToUpdatePositions : Bool
  allCharacterSensorStates : List (SensorState K)
  needToUpdateSensorStates : Bool

/-- The simulator after the characters have been registered. -/
def DynamicsSimulator.new (world : World ι K) (collisions : C) : DynamicsSimulator ι K C where
  world := world
  collisions := collisions
  allCharacterPositions := []
  needToUpdatePositions := true
  allCharacterSensorStates := []
  needToUpdateSensorStates := true

/-- `LinkDataType`. -/
inductive LinkDataType
  | invalidDataType
  | positionGiven
  | jointValue
  | jointVelocity
  | jointAcceleration
  | jointTorque
  | absTransform
  | absVelocity
  | absAcceleration
  | externalForce
  | constraintForce

/-- `length(n)` of a sequence: the elements it keeps, then new ones. -/
def setLength {α : Type*} (l : List α) (n : ℕ) (a : α) : List α :=
  l.take n ++ List.replicate (n - l.length) a

@[simp]
theorem length_setLength {α : Type*} (l : List α) (n : ℕ) (a : α) :
    (setLength l n a).length = n := by
  simp only [setLength, List.length_append, List.length_take, List.length_replicate]
  omega

theorem setLength_eq {α : Type*} {l : List α} {n : ℕ} (h : l.length = n) (a : α) :
    setLength l n a = l := by
  subst h
  simp [setLength]

/-- The positions of `_setupCharacterData`. -/
def setupPositions [Zero K] (chars : List (Character ι K))
    (positions : List (CharacterPosition K)) :
    List (CharacterPosition K) :=
  chars.mapIdx fun i c ↦ ⟨c.name, setLength ((positions[i]?).elim [] (·.linkPositions))
    c.tree.links.length ⟨0, 0⟩⟩

/-- The sensor states of `_setupCharacterData`. -/
def setupSensorStates [Zero K] (chars : List (Character ι K)) (states : List (SensorState K)) :
    List (SensorState K) :=
  chars.mapIdx fun i c ↦
    { q := setLength ((states[i]?).elim [] (·.q)) c.joints.length 0
      dq := setLength ((states[i]?).elim [] (·.dq)) c.joints.length 0
      u := setLength ((states[i]?).elim [] (·.u)) c.joints.length 0
      force := setLength ((states[i]?).elim [] (·.force)) c.numForceSensors (0, 0)
      rateGyro := setLength ((states[i]?).elim [] (·.rateGyro)) c.numRateGyros 0
      accel := setLength ((states[i]?).elim [] (·.accel)) c.numAccelSensors 0 }

/-- The vector at a place of a sequence. -/
def vector3At (wdata : ℕ → K) (n : ℕ) : Vector3 K :=
  ![wdata n, wdata (n + 1), wdata (n + 2)]

/-- `getMatrix33FromRowMajorArray`. -/
def matrix33At (wdata : ℕ → K) (n : ℕ) : Matrix33 K :=
  Matrix.of fun i j ↦ wdata (n + 3 * i + j)

section Operations

variable [Field K] [LinearOrder K] [CMath K] [DecidableEq ι]

/-- The body of the loops of `setCharacterAllLinkData`; `none` for a type that it does not set. -/
def writeJoint (c : Character ι K) (type : LinkDataType) (x : K) (i : ι) (link : Link K) :
    Option (Link K) :=
  match type with
  | .jointValue => some (if link.jointType ≠ .fixedJoint then { link with q := x } else link)
  | .jointVelocity => some (if link.jointType ≠ .fixedJoint then { link with dq := x } else link)
  | .jointAcceleration =>
    some (if link.jointType ≠ .fixedJoint then { link with ddq := x } else link)
  | .jointTorque =>
    some (if link.jointType ≠ .fixedJoint ∨ c.isCrawler i then { link with u := x } else link)
  | _ => none

/-- The cases of `setCharacterLinkData` that set a link as a whole; `none` for a type without a
case. -/
def writeLink (c : Character ι K) (type : LinkDataType) (wdata : ℕ → K) (i : ι) (link : Link K) :
    Option (Link K) :=
  match type with
  | .absTransform =>
    some { link with p := vector3At wdata 0, R := matrix33At wdata 3 * (c.Rs i)ᵀ }
  | .absVelocity =>
    some { link with
      v := vector3At wdata 0
      w := vector3At wdata 3
      vo := vector3At wdata 0 - cross (vector3At wdata 3) link.p }
  | .absAcceleration => some { link with dv := vector3At wdata 0, dw := vector3At wdata 3 }
  | .externalForce => some { link with fext := vector3At wdata 0, tauext := vector3At wdata 3 }
  | type => writeJoint c type (wdata 0) i link

/-- The switch of `setCharacterLinkData`. -/
def BodyState.setLinkData (c : Character ι K) (type : LinkDataType) (wdata : ℕ → K) (i : ι)
    (b : BodyState ι K) : Option (BodyState ι K) :=
  match type with
  | .positionGiven =>
    some { b with isHighGainMode := Function.update b.isHighGainMode i (0 < wdata 0) }
  | type => (writeLink c type wdata i (b.links i)).map fun link ↦
    { b with links := Function.update b.links i link }

/-- The switch of `setCharacterAllLinkData`: an empty joint is fixed, and no crawler. -/
def BodyState.setAllLinkData (c : Character ι K) (type : LinkDataType) (wdata : List K)
    (b : BodyState ι K) : BodyState ι K :=
  (c.joints.zip wdata).foldl (fun b e ↦
    e.1.elim b fun i ↦ (writeJoint c type e.2 i (b.links i)).elim b fun link ↦
      { b with links := Function.update b.links i link }) b

variable (chars : List (Character ι K)) (services : Services ι K C)

namespace DynamicsSimulator

omit [LinearOrder K] [CMath K] [DecidableEq ι] in
/-- A change of the world with both flags raised. -/
def changeWorld (s : DynamicsSimulator ι K C) (w : World ι K) : DynamicsSimulator ι K C :=
  { s with world := w, needToUpdatePositions := true, needToUpdateSensorStates := true }

omit [LinearOrder K] [CMath K] [DecidableEq ι] in
/-- A change of the world by an operation that leaves early when a name is not found. -/
def changeWorldIf (s : DynamicsSimulator ι K C) (w : Option (World ι K)) :
    DynamicsSimulator ι K C :=
  w.elim s (changeWorld s)

/-- `_setupCharacterData`. -/
def setupCharacterData (s : DynamicsSimulator ι K C) : DynamicsSimulator ι K C :=
  { s with
    allCharacterPositions := setupPositions chars s.allCharacterPositions
    allCharacterSensorStates := setupSensorStates chars s.allCharacterSensorStates }

/-- `_updateCharacterPositions`. -/
def updateCharacterPositions (s : DynamicsSimulator ι K C) : DynamicsSimulator ι K C :=
  { s with
    allCharacterPositions := currentPositions chars s.world
    needToUpdatePositions := false }

/-- `_updateSensorStates`. -/
def updateSensorStates (s : DynamicsSimulator ι K C) : DynamicsSimulator ι K C :=
  { s with
    allCharacterSensorStates := currentSensorStates chars s.world
    needToUpdateSensorStates := false }

/-- The world as `init` leaves it. -/
def initWorld (w : World ι K) (timeStep : K) (isEulerMethod sensorsAreEnabled : Bool) : World ι K :=
  World.mapBodies chars BodyState.initializeConfiguration
    { w with
      timeStep := timeStep
      currentTime := 0
      isEulerMethod := isEulerMethod
      sensorsAreEnabled := sensorsAreEnabled }

def init (s : DynamicsSimulator ι K C) (timeStep : K) (isEulerMethod sensorsAreEnabled : Bool) :
    DynamicsSimulator ι K C :=
  setupCharacterData chars
    { s with world := initWorld chars s.world timeStep isEulerMethod sensorsAreEnabled }

/-- `ConstraintForceSolver::clearExternalForces`. -/
def clearExternalForces (w : World ι K) : World ι K :=
  { w with
    body := fun i ↦ if w.hasConstrainedLinks i then
        (chars[i]?).elim (w.body i) fun c ↦ (w.body i).clearExternalForces c
      else w.body i }

/-- The world as `initSimulation` leaves it. -/
def initializeWorld (w : World ι K) : World ι K :=
  clearExternalForces chars
    (services.startDynamics (World.mapBodies chars (fun _ b ↦ b.clearSensorValues) w))

/-- The detector's answer for the positions of the snapshot. -/
def determineContacts (s : DynamicsSimulator ι K C) : DynamicsSimulator ι K C :=
  { s with collisions := (services.queryContactDetermination s.allCharacterPositions).1 }

def initSimulation (s : DynamicsSimulator ι K C) : DynamicsSimulator ι K C :=
  determineContacts services
    (updateCharacterPositions chars { s with world := initializeWorld chars services s.world })

def stepSimulation (s : DynamicsSimulator ι K C) : DynamicsSimulator ι K C :=
  let s := { s with
    world := services.calcNextState s.world s.collisions
    needToUpdateSensorStates := true }
  let s := determineContacts services (updateCharacterPositions chars s)
  { s with world := clearExternalForces chars s.world }

def setCharacterLinkData (s : DynamicsSimulator ι K C) (characterName linkName : String)
    (type : LinkDataType) (wdata : ℕ → K) : DynamicsSimulator ι K C :=
  changeWorldIf s <| (bodyIndex chars characterName).bind fun n ↦ (chars[n]?).bind fun c ↦
    (c.link linkName).bind fun i ↦
      ((s.world.body n).setLinkData c type wdata i).map (s.world.setBody n)

def setCharacterAllLinkData (s : DynamicsSimulator ι K C) (characterName : String)
    (type : LinkDataType) (wdata : List K) : DynamicsSimulator ι K C :=
  changeWorldIf s <| (bodyIndex chars characterName).bind fun n ↦ (chars[n]?).map fun c ↦
    s.world.setBody n ((s.world.body n).setAllLinkData c type wdata)

def calcCharacterForwardKinematics (s : DynamicsSimulator ι K C) (characterName : String) :
    DynamicsSimulator ι K C :=
  changeWorldIf s <| (bodyIndex chars characterName).bind fun n ↦ (chars[n]?).map fun c ↦
    s.world.setBody n ((s.world.body n).calcForwardKinematics c)

def calcWorldForwardKinematics (s : DynamicsSimulator ι K C) : DynamicsSimulator ι K C :=
  changeWorld s (World.mapBodies chars BodyState.calcForwardKinematics s.world)

/-- The outcome of the inverse kinematics, with the world it leaves. -/
def inverseKinematics (w : World ι K) (characterName fromLink toLink : String)
    (p : Vector3 K) (R : Matrix33 K) : Option (Bool × World ι K) :=
  (bodyIndex chars characterName).bind fun n ↦ (chars[n]?).bind fun c ↦
    (c.link fromLink).bind fun i ↦ (c.link toLink).bind fun j ↦
      (services.calcInverseKinematics c i j p R (w.body n).links).map fun r ↦
        (r.1, w.setBody n { w.body n with links := r.2 })

/-- `calcCharacterInverseKinematics`, with its answer. -/
def calcCharacterInverseKinematics (s : DynamicsSimulator ι K C)
    (characterName fromLink toLink : String) (p : Vector3 K) (R : Matrix33 K) :
    DynamicsSimulator ι K C × Bool :=
  match inverseKinematics chars services s.world characterName fromLink toLink p R with
  | none => (s, false)
  | some (true, w) => (changeWorld s w, true)
  | some (false, w) => ({ s with world := w }, false)

/-- `checkCollision`, with its answer. -/
def checkCollision (s : DynamicsSimulator ι K C) (checkAll : Bool) :
    DynamicsSimulator ι K C × Bool :=
  let s := updateCharacterPositions chars (calcWorldForwardKinematics chars s)
  if checkAll then
    (determineContacts services s, (services.queryContactDetermination s.allCharacterPositions).2)
  else (s, services.queryIntersection s.allCharacterPositions)

/-- `getWorldState`, with its answer. -/
def getWorldState (s : DynamicsSimulator ι K C) : DynamicsSimulator ι K C × WorldState K C :=
  let s := if s.needToUpdatePositions then updateCharacterPositions chars s else s
  (s, ⟨s.world.currentTime, s.allCharacterPositions, s.collisions⟩)

/-- `getCharacterSensorState`, with its answer. -/
def getCharacterSensorState (s : DynamicsSimulator ι K C) (characterName : String) :
    DynamicsSimulator ι K C × SensorState K :=
  let s := if (bodyIndex chars characterName).isSome ∧ s.needToUpdateSensorStates then
      updateSensorStates chars s
    else s
  (s, sensorStateOf chars s.allCharacterSensorStates characterName)

end DynamicsSimulator

/-! ### Runs -/

/-- An operation of a client. -/
inductive Operation (K : Type*)
  | init (timeStep : K) (isEulerMethod sensorsAreEnabled : Bool)
  | initSimulation
  | stepSimulation
  | setCharacterLinkData (characterName linkName : String) (type : LinkDataType) (wdata : ℕ → K)
  | setCharacterAllLinkData (characterName : String) (type : LinkDataType) (wdata : List K)
  | calcCharacterForwardKinematics (characterName : String)
  | calcWorldForwardKinematics
  | calcCharacterInverseKinematics (characterName fromLink toLink : String) (p : Vector3 K)
    (R : Matrix33 K)
  | checkCollision (checkAll : Bool)
  | getWorldState
  | getCharacterSensorState (characterName : String)

open DynamicsSimulator

def step (s : DynamicsSimulator ι K C) : Operation K → DynamicsSimulator ι K C
  | .init timeStep isEulerMethod sensorsAreEnabled =>
    init chars s timeStep isEulerMethod sensorsAreEnabled
  | .initSimulation => initSimulation chars services s
  | .stepSimulation => stepSimulation chars services s
  | .setCharacterLinkData characterName linkName type wdata =>
    setCharacterLinkData chars s characterName linkName type wdata
  | .setCharacterAllLinkData characterName type wdata =>
    setCharacterAllLinkData chars s characterName type wdata
  | .calcCharacterForwardKinematics characterName =>
    calcCharacterForwardKinematics chars s characterName
  | .calcWorldForwardKinematics => calcWorldForwardKinematics chars s
  | .calcCharacterInverseKinematics characterName fromLink toLink p R =>
    (calcCharacterInverseKinematics chars services s characterName fromLink toLink p R).1
  | .checkCollision checkAll => (checkCollision chars services s checkAll).1
  | .getWorldState => (getWorldState chars s).1
  | .getCharacterSensorState characterName => (getCharacterSensorState chars s characterName).1

/-- The simulator after the first `init` and a sequence of operations. -/
def run (world : World ι K) (collisions : C) (timeStep : K) (isEulerMethod sensorsAreEnabled : Bool)
    (ops : List (Operation K)) : DynamicsSimulator ι K C :=
  ops.foldl (step chars services)
    (init chars (.new world collisions) timeStep isEulerMethod sensorsAreEnabled)

omit [LinearOrder K] [CMath K] [DecidableEq ι] in
/-- A client reads the world as it is. -/
structure Fresh (s : DynamicsSimulator ι K C) : Prop where
  positions : (getWorldState chars s).2.characterPositions = currentPositions chars s.world
  sensorStates : ∀ name, (getCharacterSensorState chars s name).2 =
    sensorStateOf chars (currentSensorStates chars s.world) name

/-- The next read of the positions takes a new snapshot, or `w` has the positions of the world. -/
def PositionsHeeded (s : DynamicsSimulator ι K C) (w : World ι K) : Prop :=
  s.needToUpdatePositions = true ∨ currentPositions chars w = currentPositions chars s.world

/-- The next read of a sensor state takes a new snapshot, or `w` has the sensor states of the
world. -/
def SensorStatesHeeded (s : DynamicsSimulator ι K C) (w : World ι K) : Prop :=
  s.needToUpdateSensorStates = true ∨
    ∀ name, sensorStateOf chars (currentSensorStates chars w) name =
      sensorStateOf chars (currentSensorStates chars s.world) name

/-- An operation that does not raise the flags changes nothing that the snapshots show. -/
def Heeds (s : DynamicsSimulator ι K C) : Operation K → Prop
  | .init timeStep isEulerMethod sensorsAreEnabled =>
    let w := initWorld chars s.world timeStep isEulerMethod sensorsAreEnabled
    PositionsHeeded chars s w ∧ SensorStatesHeeded chars s w
  | .initSimulation => SensorStatesHeeded chars s (initializeWorld chars services s.world)
  | .calcCharacterInverseKinematics characterName fromLink toLink p R =>
    match inverseKinematics chars services s.world characterName fromLink toLink p R with
    | some (false, w) => PositionsHeeded chars s w ∧ SensorStatesHeeded chars s w
    | _ => True
  | _ => True

/-- The snapshots have the sizes that `_setupCharacterData` gives them. -/
structure Sized (s : DynamicsSimulator ι K C) : Prop where
  positions : setupPositions chars s.allCharacterPositions = s.allCharacterPositions
  sensorStates : setupSensorStates chars s.allCharacterSensorStates = s.allCharacterSensorStates

variable {chars services} {s : DynamicsSimulator ι K C}

section

omit [LinearOrder K] [CMath K] [DecidableEq ι]

/-- The snapshots are current unless they are flagged. -/
theorem fresh_iff : Fresh chars s ↔
    (s.needToUpdatePositions = true ∨ s.allCharacterPositions = currentPositions chars s.world) ∧
    (s.needToUpdateSensorStates = true ∨ ∀ name,
      sensorStateOf chars s.allCharacterSensorStates name =
        sensorStateOf chars (currentSensorStates chars s.world) name) := by
  have hpositions : (getWorldState chars s).2.characterPositions =
      currentPositions chars s.world ↔
      s.needToUpdatePositions = true ∨
        s.allCharacterPositions = currentPositions chars s.world := by
    rcases h : s.needToUpdatePositions <;> simp [getWorldState, h, updateCharacterPositions]
  have hstates : (∀ name, (getCharacterSensorState chars s name).2 =
      sensorStateOf chars (currentSensorStates chars s.world) name) ↔
      s.needToUpdateSensorStates = true ∨ ∀ name,
        sensorStateOf chars s.allCharacterSensorStates name =
          sensorStateOf chars (currentSensorStates chars s.world) name := by
    rcases h : s.needToUpdateSensorStates
    · simp [getCharacterSensorState, h]
    · refine iff_of_true (fun name ↦ ?_) (.inl rfl)
      rcases hindex : bodyIndex chars name with _ | i
      · simp [getCharacterSensorState, hindex, sensorStateOf]
      · simp [getCharacterSensorState, hindex, h, updateSensorStates]
  exact ⟨fun h ↦ ⟨hpositions.1 h.1, hstates.1 h.2⟩, fun h ↦ ⟨hpositions.2 h.1, hstates.2 h.2⟩⟩

/-- Snapshots of the positions with an entry of the right length for every character are left alone
by `_setupCharacterData`. -/
theorem setupPositions_mapIdx {f : ℕ → Character ι K → List (LinkPosition K)}
    (h : ∀ i c, (f i c).length = c.tree.links.length) :
    setupPositions chars (chars.mapIdx fun i c ↦ ⟨c.name, f i c⟩) =
      chars.mapIdx fun i c ↦ ⟨c.name, f i c⟩ := by
  refine List.ext_getElem? fun i ↦ ?_
  rw [setupPositions, List.getElem?_mapIdx, List.getElem?_mapIdx]
  refine Option.map_congr fun c hc ↦ ?_
  simp [hc, setLength_eq (h i c)]

end

/-- The lists of a sensor state have the lengths of its character. -/
structure SensorState.Sized (state : SensorState K) (c : Character ι K) : Prop where
  q : state.q.length = c.joints.length
  dq : state.dq.length = c.joints.length
  u : state.u.length = c.joints.length
  force : state.force.length = c.numForceSensors
  rateGyro : state.rateGyro.length = c.numRateGyros
  accel : state.accel.length = c.numAccelSensors

section

omit [LinearOrder K] [CMath K] [DecidableEq ι]

theorem setupSensorStates_mapIdx {f : ℕ → Character ι K → SensorState K}
    (h : ∀ i c, (f i c).Sized c) :
    setupSensorStates chars (chars.mapIdx f) = chars.mapIdx f := by
  refine List.ext_getElem? fun i ↦ ?_
  rw [setupSensorStates, List.getElem?_mapIdx, List.getElem?_mapIdx]
  refine Option.map_congr fun c hc ↦ ?_
  obtain ⟨hq, hdq, hu, hforce, hgyro, haccel⟩ := h i c
  simp [hc, setLength_eq hq, setLength_eq hdq, setLength_eq hu, setLength_eq hforce,
    setLength_eq hgyro, setLength_eq haccel]

theorem setupPositions_currentPositions (w : World ι K) :
    setupPositions chars (currentPositions chars w) = currentPositions chars w :=
  setupPositions_mapIdx fun _ _ ↦ by simp [linkPositions]

theorem setupSensorStates_currentSensorStates (w : World ι K) :
    setupSensorStates chars (currentSensorStates chars w) = currentSensorStates chars w :=
  setupSensorStates_mapIdx fun _ _ ↦ by constructor <;> simp [sensorState]

end

omit [LinearOrder K] in
theorem sized_init (s : DynamicsSimulator ι K C) (timeStep : K)
    (isEulerMethod sensorsAreEnabled : Bool) :
    Sized chars (init chars s timeStep isEulerMethod sensorsAreEnabled) :=
  ⟨setupPositions_mapIdx fun _ _ ↦ by simp, setupSensorStates_mapIdx fun _ _ ↦ by
    constructor <;> simp⟩

omit [LinearOrder K] [CMath K] [DecidableEq ι] in
theorem Sized.changeWorldIf (hs : Sized chars s) (w : Option (World ι K)) :
    Sized chars (changeWorldIf s w) := by
  rcases w with _ | w
  · exact hs
  · exact ⟨hs.positions, hs.sensorStates⟩

theorem Sized.step (hs : Sized chars s) (op : Operation K) :
    Sized chars (step chars services s op) := by
  rcases op with ⟨timeStep, euler, sensors⟩ | _ | _ | ⟨name, linkName, type, wdata⟩ |
    ⟨name, type, wdata⟩ | ⟨name⟩ | _ | ⟨name, fromLink, toLink, p, R⟩ | ⟨checkAll⟩ | _ | ⟨name⟩
  · exact sized_init s timeStep euler sensors
  · exact ⟨setupPositions_currentPositions _, hs.sensorStates⟩
  · exact ⟨setupPositions_currentPositions _, hs.sensorStates⟩
  · exact hs.changeWorldIf _
  · exact hs.changeWorldIf _
  · exact hs.changeWorldIf _
  · exact ⟨hs.positions, hs.sensorStates⟩
  · show Sized chars
      (calcCharacterInverseKinematics chars services s name fromLink toLink p R).1
    rw [calcCharacterInverseKinematics]
    split
    · exact hs
    · exact ⟨hs.positions, hs.sensorStates⟩
    · exact ⟨hs.positions, hs.sensorStates⟩
  · show Sized chars (checkCollision chars services s checkAll).1
    rw [checkCollision]
    split
    · exact ⟨setupPositions_currentPositions _, hs.sensorStates⟩
    · exact ⟨setupPositions_currentPositions _, hs.sensorStates⟩
  · show Sized chars (getWorldState chars s).1
    rw [getWorldState]
    split
    · exact ⟨setupPositions_currentPositions _, hs.sensorStates⟩
    · exact hs
  · show Sized chars (getCharacterSensorState chars s name).1
    rw [getCharacterSensorState]
    split
    · exact ⟨hs.positions, setupSensorStates_currentSensorStates _⟩
    · exact hs

section

omit [LinearOrder K] [CMath K] [DecidableEq ι]

theorem fresh_changeWorld (s : DynamicsSimulator ι K C) (w : World ι K) :
    Fresh chars (changeWorld s w) :=
  fresh_iff.2 ⟨.inl rfl, .inl rfl⟩

theorem Fresh.changeWorldIf (h : Fresh chars s) (w : Option (World ι K)) :
    Fresh chars (changeWorldIf s w) := by
  rcases w with _ | w
  · exact h
  · exact fresh_changeWorld s w

end

end Operations

/-! ### A repeated `init` -/

/-- A robot with one rotational joint. -/
def robot : Character ℕ ℚ where
  name := "robot"
  tree := ⟨0, .link 1 .null .null, by decide⟩
  linkName := fun i ↦ if i = 0 then "BASE" else "ARM"
  Rs := fun _ ↦ 1
  isCrawler := fun _ ↦ false
  joints := [some 1]
  defaultRootPosition := 0
  defaultRootAttitude := 1
  numForceSensors := 0
  numRateGyros := 0
  numAccelSensors := 0

/-- A robot at rest, without contacts and with no target in reach. -/
def atRest : Services ℕ ℚ Unit where
  calcNextState := fun w _ ↦ w
  startDynamics := id
  calcInverseKinematics := fun _ _ _ _ _ s ↦ some (false, s)
  queryContactDetermination := fun _ ↦ ((), false)
  queryIntersection := fun _ ↦ false

end OpenHRP.Snapshot
