import OpenHRP.ControllerBridge.VirtualRobotRTC
import OpenHRP.Foundations.Runs

/-!
# The controller

A simulation calls `start`, then `input` and `control` for each of its steps, and `stop`. The output
ports of the robot are served in `input` and `control`, each once per period
(`sampled_once_per_period`). The components are ticked in `control`, as often as their rates say.
-/

namespace OpenHRP

/-- A reference to a component, with its instance name. -/
structure RTObject where
  id : ℕ
  instanceName : StdString
  hasExecContext : Bool
  deriving DecidableEq

/-- What the controller keeps for a component, with the number of ticks of its execution context if
it has one. -/
structure RtcInfo (K : Type*) where
  rtcRef : RTObject
  timeRate : K
  timeRateCounter : K
  execContext : Option ℕ

/-- The controller. The time rates are those of the options, by instance names. -/
structure Controller (K D : Type*) where
  controlTime : K
  timeStep : K
  virtualRobotRTC : VirtualRobotRTC K D
  rtcInfoVector : List (RtcInfo K)

/-- The calls during simulations. `stop` gets the answers of the execution contexts, and `input` the
data of the simulator. -/
inductive Call (D : Type*)
  | start
  | input (simulator : StdString → D)
  | control
  | stop (isDeactivated : RTObject → Bool)

variable {K D : Type*} [Field K] [LinearOrder K] [FloorRing K]

namespace RtcInfo

/-- The entry for a component that is detected. -/
def new (timeRateMap : List (StdString × K)) (rtcRef : RTObject) : RtcInfo K :=
  let execContext := if rtcRef.hasExecContext then some 0 else none
  if timeRateMap.length = 0 then ⟨rtcRef, 1, 0, execContext⟩
  else
    match timeRateMap.lookup rtcRef.instanceName with
    | some rate => ⟨rtcRef, rate, 1 - rate, execContext⟩
    | none => ⟨rtcRef, 0, 0, execContext⟩

def tick (info : RtcInfo K) : RtcInfo K :=
  { info with execContext := info.execContext.map (· + 1) }

/-- The loop body of `control`. -/
def control (info : RtcInfo K) : RtcInfo K :=
  if info.execContext.isSome then
    let counter := info.timeRateCounter + info.timeRate
    if counter + info.timeRate / 2 > 1 then { info.tick with timeRateCounter := counter - 1 }
    else { info with timeRateCounter := counter }
  else info

/-- The execution context is ticked once more if it has accepted the deactivation. -/
def deactivate (isDeactivated : RTObject → Bool) (info : RtcInfo K) : RtcInfo K :=
  if isDeactivated info.rtcRef then info.tick else info

end RtcInfo

/-- The entry of a component is made once. -/
def addRtcVectorWithConnection (timeRateMap : List (StdString × K))
    (rtcInfoVector : List (RtcInfo K)) (rtcRef : RTObject) : List (RtcInfo K) :=
  if rtcInfoVector.any fun info ↦ info.rtcRef = rtcRef then rtcInfoVector
  else rtcInfoVector ++ [RtcInfo.new timeRateMap rtcRef]

namespace Controller

/-- A controller that has detected components. -/
def detectRtcs (timeStep : K) (virtualRobotRTC : VirtualRobotRTC K D)
    (timeRateMap : List (StdString × K)) (rtcs : List RTObject) : Controller K D where
  controlTime := 0
  timeStep
  virtualRobotRTC
  rtcInfoVector := rtcs.foldl (addRtcVectorWithConnection timeRateMap) []

/-- The activation of the components changes none of the data here. -/
def start (c : Controller K D) : Controller K D :=
  { c with controlTime := 0 }

/-- The controller after the call, and the ports whose data the simulator is asked for. -/
def input (c : Controller K D) (simulator : StdString → D) : Controller K D × List StdString :=
  let r := c.virtualRobotRTC.inputDataFromSimulator c.controlTime c.timeStep simulator
  ({ c with virtualRobotRTC := r.1 }, r.2)

/-- The controller after the call, and the handlers whose data have been written. -/
def control (c : Controller K D) : Controller K D × List (OutPortHandler K D) :=
  ({ c with
      rtcInfoVector := c.rtcInfoVector.map RtcInfo.control
      controlTime := c.controlTime + c.timeStep },
    c.virtualRobotRTC.writeDataToOutPorts c.controlTime c.timeStep)

def stop (c : Controller K D) (isDeactivated : RTObject → Bool) : Controller K D :=
  { c with rtcInfoVector := c.rtcInfoVector.map (RtcInfo.deactivate isDeactivated) }

def call (c : Controller K D) : Call D → Controller K D
  | .start => c.start
  | .input simulator => (c.input simulator).1
  | .control => c.control.1
  | .stop isDeactivated => c.stop isDeactivated

/-! ### The output ports -/

/-- The controller before control step `n` of a simulation that gives the data `simulator`. -/
def atStep (c : Controller K D) (simulator : ℕ → StdString → D) : ℕ → Controller K D
  | 0 => c.start
  | n + 1 => ((c.atStep simulator n).input (simulator n)).1.control.1

/-- The data of a port are asked for at step `n`. -/
def FetchesAt (c : Controller K D) (simulator : ℕ → StdString → D) (n : ℕ) (portName : StdString) :
    Prop :=
  portName ∈ ((c.atStep simulator n).input (simulator n)).2

/-- A port is written at step `n`. -/
def WritesAt (c : Controller K D) (simulator : ℕ → StdString → D) (n : ℕ) (portName : StdString) :
    Prop :=
  portName ∈ ((c.atStep simulator n).input (simulator n)).1.control.2.map OutPortHandler.portName

variable {c : Controller K D} {simulator : ℕ → StdString → D} {p : StdString} {s : K}

theorem timeStep_atStep (n : ℕ) : (c.atStep simulator n).timeStep = c.timeStep := by
  induction n with
  | zero => rfl
  | succ n ih => exact ih

theorem controlTime_atStep (n : ℕ) : (c.atStep simulator n).controlTime = n * c.timeStep := by
  induction n with
  | zero => exact (by rw [Nat.cast_zero, zero_mul] : (0 : K) = (0 : ℕ) * c.timeStep)
  | succ n ih =>
    have hstep : (c.atStep simulator (n + 1)).controlTime =
        (c.atStep simulator n).controlTime + (c.atStep simulator n).timeStep := rfl
    rw [hstep, ih, timeStep_atStep, Nat.cast_succ, add_one_mul]

theorem hasOutPort_atStep (h : c.virtualRobotRTC.HasOutPort p s) (n : ℕ) :
    (c.atStep simulator n).virtualRobotRTC.HasOutPort p s := by
  induction n with
  | zero => exact h
  | succ n ih => exact ih.input _ _ _

/-- Fetching and writing serve the same ports, and the port gets the data of the step. -/
theorem writesAt_iff (n : ℕ) : c.WritesAt simulator n p ↔ c.FetchesAt simulator n p := by
  rw [WritesAt, FetchesAt, input, control, VirtualRobotRTC.map_portName_writeDataToOutPorts]

variable [IsStrictOrderedRing K]

theorem fetchesAt_iff (hdt : 0 < c.timeStep) (h : c.virtualRobotRTC.HasOutPort p s)
    (hs : c.timeStep ≤ s) (n : ℕ) :
    c.FetchesAt simulator n p ↔ ∃ k, n * c.timeStep ∈ Schedule.window s c.timeStep k := by
  show p ∈ ((c.atStep simulator n).virtualRobotRTC.inputDataFromSimulator
    (c.atStep simulator n).controlTime (c.atStep simulator n).timeStep (simulator n)).2 ↔ _
  rw [controlTime_atStep, timeStep_atStep]
  exact (hasOutPort_atStep h n).mem_input_iff hdt hs (mul_nonneg n.cast_nonneg hdt.le)

/-- A port whose period is at least the control step is written once for each multiple of the
period, at the step that is nearest to it, and at no other step. Its data are fetched at the same
steps. -/
theorem sampled_once_per_period (hdt : 0 < c.timeStep) (h : c.virtualRobotRTC.HasOutPort p s)
    (hs : c.timeStep ≤ s) :
    (∀ k : ℕ, ∃! n : ℕ,
      n * c.timeStep ∈ Set.Ico (k * s - c.timeStep / 2) (k * s + c.timeStep / 2) ∧
        c.WritesAt simulator n p) ∧
    (∀ n, c.WritesAt simulator n p → ∃ k : ℕ,
      n * c.timeStep ∈ Set.Ico (k * s - c.timeStep / 2) (k * s + c.timeStep / 2)) ∧
    ∀ n, c.FetchesAt simulator n p ↔ c.WritesAt simulator n p := by
  have hwrites (n : ℕ) : c.WritesAt simulator n p ↔
      ∃ k, n * c.timeStep ∈ Schedule.window s c.timeStep k :=
    (writesAt_iff n).trans (fetchesAt_iff hdt h hs n)
  refine ⟨fun k ↦ ?_, fun n hn ↦ (hwrites n).1 hn, fun n ↦ (writesAt_iff n).symm⟩
  obtain ⟨n, hn, huniq⟩ := Schedule.existsUnique_mul_mem_window hdt hs k
  exact ⟨n, ⟨hn, (hwrites n).2 ⟨k, hn⟩⟩, fun m hm ↦ huniq m hm.1⟩

/-- A port with the period `5 / 2` at control steps of length one. -/
theorem sampled_once_per_period_witness :
    let handler : OutPortHandler ℚ ℕ := ⟨"q".toList, 5 / 2, 0, 0⟩
    let rtc : VirtualRobotRTC ℚ ℕ := ⟨[handler], List.nodup_singleton _⟩
    let c : Controller ℚ ℕ := ⟨0, 1, rtc, []⟩
    (∀ k : ℕ, ∃! n : ℕ, (n : ℚ) * 1 ∈ Set.Ico ((k : ℚ) * (5 / 2) - 1 / 2) (k * (5 / 2) + 1 / 2) ∧
      c.WritesAt (fun n _ ↦ n) n "q".toList) ∧
    (∀ n, c.WritesAt (fun n _ ↦ n) n "q".toList → ∃ k : ℕ,
      (n : ℚ) * 1 ∈ Set.Ico ((k : ℚ) * (5 / 2) - 1 / 2) (k * (5 / 2) + 1 / 2)) ∧
    ∀ n, c.FetchesAt (fun n _ ↦ n) n "q".toList ↔ c.WritesAt (fun n _ ↦ n) n "q".toList := by
  intro handler rtc c
  have h : c.virtualRobotRTC.HasOutPort "q".toList (5 / 2) :=
    ⟨handler, List.mem_singleton_self _, rfl, rfl⟩
  exact sampled_once_per_period (c := c) (show (0 : ℚ) < 1 by decide +kernel) h
    (show (1 : ℚ) ≤ 5 / 2 by decide +kernel)

end Controller

end OpenHRP
