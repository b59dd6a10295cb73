import OpenHRP.Foundations.Schedules
import OpenHRP.Foundations.StdString
import Mathlib.Data.List.Nodup

/-!
# The output ports of the virtual robot

At every control step the component that stands for the robot first asks the simulator for the data
of its output ports and then writes them. A port with a period does both only at the steps that are
nearest to the multiples of the period (`isDue_iff`).
-/

namespace OpenHRP

variable {K D : Type*}

/-- The handler of an output port, with the data that have been fetched last and their time. -/
structure OutPortHandler (K D : Type*) where
  portName : StdString
  stepTime : K
  time : K
  data : D

/-- The component, whose handlers are those of a map from port names. -/
structure VirtualRobotRTC (K D : Type*) where
  outPortHandlers : List (OutPortHandler K D)
  nodup_portName : (outPortHandlers.map OutPortHandler.portName).Nodup

section Conversion

variable [Field K] [LinearOrder K] [FloorRing K]

/-- The conversion to an integer, towards zero. -/
def truncate (x : K) : ℤ :=
  if 0 ≤ x then ⌊x⌋ else ⌈x⌉

/-- The variable `w` of the two loops over the output ports. -/
def portPhase (controlTime controlTimeStep stepTime : K) : K :=
  let w := controlTime - truncate (controlTime / stepTime) * stepTime + controlTimeStep / 2
  if w ≥ stepTime then 0 else w

end Conversion

namespace OutPortHandler

/-- Fetching the data, for the handlers of all kinds. -/
def inputDataFromSimulator (handler : OutPortHandler K D) (controlTime : K)
    (simulator : StdString → D) : OutPortHandler K D :=
  { handler with
    time := controlTime
    data := simulator handler.portName }

variable [Field K] [LinearOrder K] [FloorRing K]

/-- The handler is called at this step. A port with the period zero is served at every step. -/
def isDue (controlTime controlTimeStep : K) (handler : OutPortHandler K D) : Bool :=
  if handler.stepTime ≠ 0 then
    portPhase controlTime controlTimeStep handler.stepTime < controlTimeStep
  else true

end OutPortHandler

namespace VirtualRobotRTC

variable [Field K] [LinearOrder K] [FloorRing K]

/-- The component after fetching, and the ports whose data the simulator is asked for. -/
def inputDataFromSimulator (rtc : VirtualRobotRTC K D) (controlTime controlTimeStep : K)
    (simulator : StdString → D) : VirtualRobotRTC K D × List StdString :=
  ({ outPortHandlers := rtc.outPortHandlers.map fun handler ↦
        if handler.isDue controlTime controlTimeStep then
          handler.inputDataFromSimulator controlTime simulator
        else handler
     nodup_portName := by
        rw [List.map_map]
        convert rtc.nodup_portName using 2
        funext handler
        rw [Function.comp_apply]
        split <;> rfl },
    (rtc.outPortHandlers.filter (OutPortHandler.isDue controlTime controlTimeStep)).map
      OutPortHandler.portName)

/-- The handlers whose data are written to their ports. -/
def writeDataToOutPorts (rtc : VirtualRobotRTC K D) (controlTime controlTimeStep : K) :
    List (OutPortHandler K D) :=
  rtc.outPortHandlers.filter (OutPortHandler.isDue controlTime controlTimeStep)

def checkOutPortStepTime (rtc : VirtualRobotRTC K D) (controlTimeStep : K) : Bool :=
  rtc.outPortHandlers.all fun handler ↦
    !(decide (handler.stepTime ≠ 0) && decide (handler.stepTime < controlTimeStep))

end VirtualRobotRTC

/-! ### When a port is served -/

variable [Field K] [LinearOrder K] [IsStrictOrderedRing K] [FloorRing K] {t dt : K}
  {handler : OutPortHandler K D}

/-- The wrap to zero serves a port whose next multiple is at most half a step away. -/
theorem OutPortHandler.isDue_iff (hdt : 0 < dt) (hs : dt ≤ handler.stepTime) (ht : 0 ≤ t) :
    handler.isDue t dt = true ↔ ∃ k, t ∈ Schedule.window handler.stepTime dt k := by
  have hpos : 0 < handler.stepTime := hdt.trans_le hs
  have htruncate : truncate (t / handler.stepTime) = ⌊t / handler.stepTime⌋ :=
    if_pos (div_nonneg ht hpos.le)
  rw [Schedule.exists_mem_window_iff hpos hdt ht, isDue, if_pos hpos.ne', decide_eq_true_iff,
    portPhase, htruncate]
  split_ifs with h
  · exact iff_of_true hdt (.inr (by linarith))
  · rw [or_iff_left (by linarith)]
    constructor <;> intro h' <;> linarith

/-! ### What fetching changes -/

namespace VirtualRobotRTC

variable {rtc : VirtualRobotRTC K D} {simulator : StdString → D}

section

omit [IsStrictOrderedRing K]

/-- The written handlers are those that have fetched their data. -/
theorem writeDataToOutPorts_input :
    (rtc.inputDataFromSimulator t dt simulator).1.writeDataToOutPorts t dt =
      (rtc.writeDataToOutPorts t dt).map (·.inputDataFromSimulator t simulator) := by
  have hdue : (OutPortHandler.isDue t dt ∘ fun handler : OutPortHandler K D ↦
      if handler.isDue t dt then handler.inputDataFromSimulator t simulator else handler) =
      OutPortHandler.isDue t dt := by
    funext handler
    rw [Function.comp_apply]
    split <;> rfl
  rw [writeDataToOutPorts, inputDataFromSimulator, List.filter_map, hdue, writeDataToOutPorts]
  refine List.map_congr_left fun handler hmem ↦ if_pos ?_
  exact (List.mem_filter.1 hmem).2

/-- The ports that are written are those whose data have been fetched at the same step. -/
theorem map_portName_writeDataToOutPorts :
    ((rtc.inputDataFromSimulator t dt simulator).1.writeDataToOutPorts t dt).map
      OutPortHandler.portName = (rtc.inputDataFromSimulator t dt simulator).2 := by
  rw [writeDataToOutPorts_input, List.map_map]
  rfl

end

/-- The component has an output port with this name and period. -/
def HasOutPort (rtc : VirtualRobotRTC K D) (portName : StdString) (stepTime : K) : Prop :=
  ∃ handler ∈ rtc.outPortHandlers, handler.portName = portName ∧ handler.stepTime = stepTime

omit [IsStrictOrderedRing K] in
theorem HasOutPort.input {p : StdString} {s : K} (h : rtc.HasOutPort p s) (t dt : K)
    (simulator : StdString → D) : (rtc.inputDataFromSimulator t dt simulator).1.HasOutPort p s := by
  obtain ⟨handler, hmem, hname, htime⟩ := h
  refine ⟨_, List.mem_map_of_mem hmem, ?_⟩
  split <;> exact ⟨hname, htime⟩

omit [IsStrictOrderedRing K] [FloorRing K] in
/-- The check when the controller is initialized admits a period of at least the control step. -/
theorem HasOutPort.le_of_check {p : StdString} {s : K} (h : rtc.HasOutPort p s) (hs : s ≠ 0)
    (hcheck : rtc.checkOutPortStepTime dt = true) : dt ≤ s := by
  obtain ⟨handler, hmem, -, rfl⟩ := h
  have hh := List.all_eq_true.1 hcheck handler hmem
  rw [decide_eq_true hs, Bool.true_and, Bool.not_eq_true', decide_eq_false_iff_not] at hh
  exact not_lt.1 hh

/-- The data of a port are asked for at the steps next to the multiples of its period. -/
theorem HasOutPort.mem_input_iff {p : StdString} {s : K} (h : rtc.HasOutPort p s) (hdt : 0 < dt)
    (hs : dt ≤ s) (ht : 0 ≤ t) :
    p ∈ (rtc.inputDataFromSimulator t dt simulator).2 ↔ ∃ k, t ∈ Schedule.window s dt k := by
  obtain ⟨handler, hmem, rfl, rfl⟩ := h
  rw [← OutPortHandler.isDue_iff hdt hs ht, inputDataFromSimulator, List.mem_map]
  constructor
  · rintro ⟨handler', hmem', hname⟩
    obtain ⟨hmem', hdue⟩ := List.mem_filter.1 hmem'
    -- the name belongs to one handler only
    rwa [← List.inj_on_of_nodup_map rtc.nodup_portName hmem' hmem hname]
  · exact fun hdue ↦ ⟨handler, List.mem_filter.2 ⟨hmem, hdue⟩, rfl⟩

end VirtualRobotRTC

end OpenHRP
