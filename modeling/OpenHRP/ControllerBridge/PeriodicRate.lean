import OpenHRP.ControllerBridge.Controller

/-!
# The rates of the components

A component of rate `r` is ticked in `control` whenever its counter, which grows by `r`, comes
within half a step of `1`. After `n` calls of `control` it has been ticked `⌈n * r - r / 2⌉` times
(`IsAfter`). `start` does not reset the counter, so a later simulation has the schedule of the first
one if and only if the calls before it make up a whole number of ticks (`isEven_iff`).
-/

namespace OpenHRP

variable {K D : Type*} [Field K] [LinearOrder K] [FloorRing K]

/-- A call that can stand between `start` and `stop`. -/
def Call.isWithin : Call D → Bool
  | .input _ => true
  | .control => true
  | _ => false

def Call.isControl : Call D → Bool
  | .control => true
  | _ => false

namespace RtcInfo

def call (info : RtcInfo K) : Call D → RtcInfo K
  | .control => info.control
  | .stop isDeactivated => info.deactivate isDeactivated
  | _ => info

/-- The number of ticks, zero without an execution context. -/
def ticks (info : RtcInfo K) : ℕ := info.execContext.getD 0

end RtcInfo

namespace Controller

/-- The entry of a component. -/
def rtcInfo (c : Controller K D) (rtcRef : RTObject) : Option (RtcInfo K) :=
  c.rtcInfoVector.find? fun info ↦ info.rtcRef = rtcRef

/-- How often a component has been ticked. -/
def ticks (c : Controller K D) (rtcRef : RTObject) : ℕ :=
  ((c.rtcInfo rtcRef).map RtcInfo.ticks).getD 0

def calls (c : Controller K D) (l : List (Call D)) : Controller K D := l.foldl call c

/-- A simulation that is started now ticks the component evenly: `⌈n * r - r / 2⌉` times in the
first `n` calls of `control`. -/
def IsEven (c : Controller K D) (rtcRef : RTObject) (r : K) : Prop :=
  ∀ l : List (Call D), l.all Call.isWithin → ((c.start.calls l).ticks rtcRef : ℤ) =
    c.start.ticks rtcRef + ⌈(l.countP Call.isControl : ℕ) * r - r / 2⌉

end Controller

/-! ### The counter -/

namespace RtcInfo

variable {info : RtcInfo K} {r : K} {n : ℕ}

/-- The entry of a component of rate `r` after `n` calls of `control`. -/
structure IsAfter (r : K) (n : ℕ) (info : RtcInfo K) : Prop where
  timeRate : info.timeRate = r
  counter : info.timeRateCounter = 1 + n * r - r - ⌈n * r - r / 2⌉
  isSome : info.execContext.isSome

section

omit [FloorRing K]

theorem control_of_due (h : info.execContext.isSome)
    (hdue : 1 < info.timeRateCounter + info.timeRate + info.timeRate / 2) :
    info.control =
      { info.tick with timeRateCounter := info.timeRateCounter + info.timeRate - 1 } :=
  (if_pos h).trans (if_pos hdue)

theorem control_of_not_due (h : info.execContext.isSome)
    (hdue : ¬1 < info.timeRateCounter + info.timeRate + info.timeRate / 2) :
    info.control = { info with timeRateCounter := info.timeRateCounter + info.timeRate } :=
  (if_pos h).trans (if_neg hdue)

end

omit [LinearOrder K] [FloorRing K] in
theorem rtcRef_new (timeRateMap : List (StdString × K)) (rtcRef : RTObject) :
    (new timeRateMap rtcRef).rtcRef = rtcRef := by
  rw [new]
  split
  · rfl
  · split <;> rfl

omit [FloorRing K] in
theorem rtcRef_call (a : Call D) : (info.call a).rtcRef = info.rtcRef := by
  rcases a with - | - | - | isDeactivated
  · rfl
  · rfl
  · show info.control.rtcRef = _
    rw [control]
    dsimp only
    split_ifs <;> rfl
  · show (info.deactivate isDeactivated).rtcRef = _
    rw [deactivate]
    split_ifs <;> rfl

variable [IsStrictOrderedRing K]

theorem isAfter_new {timeRateMap : List (StdString × K)} {rtcRef : RTObject}
    (hrate : timeRateMap.lookup rtcRef.instanceName = some r) (hctx : rtcRef.hasExecContext = true)
    (hr : 0 < r) (hr' : r ≤ 1) : (new timeRateMap rtcRef).IsAfter r 0 := by
  have hceil : ⌈((0 : ℕ) : K) * r - r / 2⌉ = 0 := by
    rw [Int.ceil_eq_iff]
    push_cast
    constructor <;> linarith
  have hne : timeRateMap.length ≠ 0 := fun h ↦ by
    rw [List.length_eq_zero_iff.1 h] at hrate
    exact Option.some_ne_none _ hrate.symm
  have hnew : new timeRateMap rtcRef = ⟨rtcRef, r, 1 - r, some 0⟩ := by
    rw [new, if_neg hne, hrate, hctx]
    rfl
  rw [hnew]
  refine ⟨rfl, ?_, rfl⟩
  rw [hceil]
  push_cast
  ring

/-- A call of `control` ticks the component if and only if another event is due. -/
theorem IsAfter.control (h : info.IsAfter r n) (hr : 0 < r) (hr' : r ≤ 1) :
    info.control.IsAfter r (n + 1) ∧
      (info.control.ticks : ℤ) = info.ticks + (⌈(n + 1 : ℕ) * r - r / 2⌉ - ⌈n * r - r / 2⌉) := by
  have hceil := Schedule.ceil_succ_eq hr.le hr' (r / 2) n
  have hiff : 1 < info.timeRateCounter + info.timeRate + info.timeRate / 2 ↔
      (⌈n * r - r / 2⌉ : K) < (n + 1 : ℕ) * r - r / 2 := by
    rw [h.counter, h.timeRate]
    push_cast
    constructor <;> intro h' <;> linarith
  by_cases hdue : 1 < info.timeRateCounter + info.timeRate + info.timeRate / 2
  · rw [if_pos (hiff.1 hdue)] at hceil
    obtain ⟨ticks, hticks⟩ := Option.isSome_iff_exists.1 h.isSome
    rw [control_of_due h.isSome hdue, hceil]
    refine ⟨⟨h.timeRate, ?_, ?_⟩, ?_⟩
    · rw [hceil, h.counter, h.timeRate]
      push_cast
      ring
    · rw [tick, hticks]
      rfl
    · rw [RtcInfo.ticks, RtcInfo.ticks, tick, hticks, add_sub_cancel_left]
      rfl
  · rw [if_neg (mt hiff.2 hdue)] at hceil
    rw [control_of_not_due h.isSome hdue, hceil, sub_self, add_zero]
    refine ⟨⟨h.timeRate, ?_, h.isSome⟩, rfl⟩
    rw [hceil, h.counter, h.timeRate]
    push_cast
    ring

/-- The counter goes on through all calls. -/
theorem IsAfter.call (h : info.IsAfter r n) (hr : 0 < r) (hr' : r ≤ 1) (a : Call D) :
    (info.call a).IsAfter r (n + [a].countP Call.isControl) := by
  rcases a with - | - | - | isDeactivated
  · exact h
  · exact h
  · exact (h.control hr hr').1
  · show (info.deactivate isDeactivated).IsAfter r n
    rw [deactivate]
    split_ifs
    · exact ⟨h.timeRate, h.counter, by rw [tick, Option.isSome_map]; exact h.isSome⟩
    · exact h

theorem IsAfter.foldl (h : info.IsAfter r n) (hr : 0 < r) (hr' : r ≤ 1) (l : List (Call D)) :
    (l.foldl RtcInfo.call info).IsAfter r (n + l.countP Call.isControl) := by
  induction l generalizing info n with
  | nil => exact h
  | cons a l ih =>
    have hl := ih (h.call hr hr' a)
    rwa [Nat.add_assoc, ← List.countP_append] at hl

theorem IsAfter.ticks_call (h : info.IsAfter r n) (hr : 0 < r) (hr' : r ≤ 1) {a : Call D}
    (ha : a.isWithin) : ((info.call a).ticks : ℤ) =
      info.ticks + (⌈(n + [a].countP Call.isControl : ℕ) * r - r / 2⌉ - ⌈n * r - r / 2⌉) := by
  rcases a with - | - | - | isDeactivated
  · exact absurd ha Bool.false_ne_true
  · exact (by rw [Nat.add_zero, sub_self, add_zero] : (info.ticks : ℤ) =
      info.ticks + (⌈((n + 0 : ℕ) : K) * r - r / 2⌉ - ⌈n * r - r / 2⌉))
  · exact (h.control hr hr').2
  · exact absurd ha Bool.false_ne_true

theorem IsAfter.ticks_foldl (h : info.IsAfter r n) (hr : 0 < r) (hr' : r ≤ 1) {l : List (Call D)}
    (hl : l.all Call.isWithin) : ((l.foldl RtcInfo.call info).ticks : ℤ) =
      info.ticks + (⌈(n + l.countP Call.isControl : ℕ) * r - r / 2⌉ - ⌈n * r - r / 2⌉) := by
  induction l generalizing info n with
  | nil => rw [List.countP_nil, Nat.add_zero, sub_self, add_zero, List.foldl_nil]
  | cons a l ih =>
    rw [List.all_cons, Bool.and_eq_true] at hl
    have htail := ih (h.call hr hr' a) hl.2
    rw [Nat.add_assoc, ← List.countP_append, List.singleton_append] at htail
    rw [List.foldl_cons, htail, h.ticks_call hr hr' hl.1]
    ring

end RtcInfo

/-! ### The controller -/

namespace Controller

variable {c : Controller K D} {rtcRef : RTObject} {info : RtcInfo K} {r : K}

omit [FloorRing K] in
theorem find?_map_call (a : Call D) (v : List (RtcInfo K)) :
    (v.map (·.call a)).find? (fun info ↦ info.rtcRef = rtcRef) =
      (v.find? fun info ↦ info.rtcRef = rtcRef).map (·.call a) := by
  rw [List.find?_map]
  refine congrArg (Option.map _) (congrArg (List.find? · v) (funext fun info ↦ ?_))
  rw [Function.comp_apply, RtcInfo.rtcRef_call]

theorem rtcInfo_call (h : c.rtcInfo rtcRef = some info) (a : Call D) :
    (c.call a).rtcInfo rtcRef = some (info.call a) := by
  have hmap : (c.call a).rtcInfoVector = c.rtcInfoVector.map (·.call a) := by
    rcases a with - | - | - | isDeactivated
    · exact (List.map_id _).symm
    · exact (List.map_id _).symm
    · rfl
    · rfl
  rw [rtcInfo, hmap, find?_map_call, ← rtcInfo, h]
  rfl

theorem rtcInfo_calls (h : c.rtcInfo rtcRef = some info) (l : List (Call D)) :
    (c.calls l).rtcInfo rtcRef = some (l.foldl RtcInfo.call info) := by
  induction l generalizing c info with
  | nil => exact h
  | cons a l ih => exact ih (rtcInfo_call h a)

omit [Field K] [LinearOrder K] [FloorRing K] in
theorem ticks_of_rtcInfo (h : c.rtcInfo rtcRef = some info) : c.ticks rtcRef = info.ticks := by
  rw [ticks, h]
  rfl

section

omit [LinearOrder K] [FloorRing K]

/-- Detecting a component makes an entry for it unless there is one, and keeps the others. -/
theorem find?_addRtcVectorWithConnection (timeRateMap : List (StdString × K)) (v : List (RtcInfo K))
    (rtcRef' : RTObject) :
    ((addRtcVectorWithConnection timeRateMap v rtcRef').find? fun info ↦ info.rtcRef = rtcRef) =
      (v.find? fun info ↦ info.rtcRef = rtcRef).or
        (if rtcRef' = rtcRef then some (RtcInfo.new timeRateMap rtcRef) else none) := by
  rw [addRtcVectorWithConnection]
  split_ifs with hany heq heq
  · rw [heq] at hany
    obtain ⟨info, hinfo⟩ :=
      Option.isSome_iff_exists.1 (List.find?_isSome.2 (List.any_eq_true.1 hany))
    rw [hinfo, Option.some_or]
  · rw [Option.or_none]
  · rw [List.find?_append, List.find?_singleton, RtcInfo.rtcRef_new, heq,
      if_pos (decide_eq_true rfl)]
  · rw [List.find?_append, List.find?_singleton, RtcInfo.rtcRef_new, decide_eq_false heq,
      if_neg Bool.false_ne_true]

variable {timeRateMap : List (StdString × K)} {rtcs : List RTObject}

theorem find?_foldl_addRtcVectorWithConnection {v : List (RtcInfo K)}
    (h : (v.find? fun info ↦ info.rtcRef = rtcRef) = some (RtcInfo.new timeRateMap rtcRef) ∨
      (v.find? fun info ↦ info.rtcRef = rtcRef) = none ∧ rtcRef ∈ rtcs) :
    ((rtcs.foldl (addRtcVectorWithConnection timeRateMap) v).find?
      fun info ↦ info.rtcRef = rtcRef) = some (RtcInfo.new timeRateMap rtcRef) := by
  induction rtcs generalizing v with
  | nil =>
    rcases h with h | h
    · exact h
    · exact absurd h.2 List.not_mem_nil
  | cons rtcRef' rtcs ih =>
    refine ih ?_
    rw [find?_addRtcVectorWithConnection]
    rcases h with h | ⟨h, hmem⟩
    · exact .inl (by rw [h, Option.some_or])
    · rw [h, Option.none_or]
      by_cases heq : rtcRef' = rtcRef
      · exact .inl (if_pos heq)
      · exact .inr ⟨if_neg heq, (List.mem_cons.1 hmem).resolve_left (Ne.symm heq)⟩

theorem rtcInfo_detectRtcs {timeStep : K} {virtualRobotRTC : VirtualRobotRTC K D}
    (h : rtcRef ∈ rtcs) :
    (detectRtcs timeStep virtualRobotRTC timeRateMap rtcs).rtcInfo rtcRef =
      some (RtcInfo.new timeRateMap rtcRef) :=
  find?_foldl_addRtcVectorWithConnection (.inr ⟨rfl, h⟩)

end

variable [IsStrictOrderedRing K]

/-- The schedule of a simulation is that of the first one if and only if the earlier calls of
`control` make up a whole number of ticks. -/
theorem isEven_iff {timeStep : K} {virtualRobotRTC : VirtualRobotRTC K D}
    {timeRateMap : List (StdString × K)} {rtcs : List RTObject} (hr : 0 < r) (hr' : r ≤ 1)
    (hrate : timeRateMap.lookup rtcRef.instanceName = some r) (hctx : rtcRef.hasExecContext = true)
    (hmem : rtcRef ∈ rtcs) (history : List (Call D)) :
    ((detectRtcs timeStep virtualRobotRTC timeRateMap rtcs).calls history).IsEven rtcRef r ↔
      ∃ z : ℤ, (history.countP Call.isControl : ℕ) * r = z := by
  set c := (detectRtcs timeStep virtualRobotRTC timeRateMap rtcs).calls history with hc
  set m := history.countP Call.isControl with hm
  obtain ⟨info, hinfo, hafter⟩ : ∃ info, c.start.rtcInfo rtcRef = some info ∧ info.IsAfter r m := by
    refine ⟨_, rtcInfo_calls (rtcInfo_detectRtcs hmem) history, ?_⟩
    have h := (RtcInfo.isAfter_new hrate hctx hr hr').foldl hr hr' history
    rwa [Nat.zero_add] at h
  have hticks (l : List (Call D)) (hl : l.all Call.isWithin) := hafter.ticks_foldl hr hr' hl
  simp only [IsEven, ticks_of_rtcInfo hinfo, ticks_of_rtcInfo (rtcInfo_calls hinfo _)]
  rw [← Schedule.forall_ceil_sub_eq_iff (half_pos hr).le (by linarith) m]
  constructor
  · intro h n
    have hall : (List.replicate n (Call.control : Call D)).all Call.isWithin := by
      rw [List.all_replicate]
      split <;> rfl
    have hn := h _ hall
    rw [hticks _ hall, add_right_inj] at hn
    have hcount : (List.replicate n (Call.control : Call D)).countP Call.isControl = n := by
      rw [List.countP_replicate]
      rfl
    rwa [hcount] at hn
  · intro h l hl
    rw [hticks l hl, h]

/-- A simulation with one call of `control`, for components of the rates `1 / 2` and `1 / 3`. -/
def exampleController : Controller ℚ Unit :=
  (detectRtcs 1 ⟨[], List.nodup_nil⟩ [("half".toList, 1 / 2), ("third".toList, 1 / 3)]
    [⟨0, "half".toList, true⟩, ⟨1, "third".toList, true⟩]).calls
      [.start, .input fun _ ↦ (), .control, .stop fun _ ↦ true]

theorem isEven_iff_witness :
    exampleController.IsEven ⟨1, "third".toList, true⟩ (1 / 3) ↔
      ∃ z : ℤ, ((1 : ℕ) : ℚ) * (1 / 3) = z :=
  isEven_iff (by decide +kernel) (by decide +kernel) (by decide +kernel) rfl
    (List.mem_cons_of_mem _ List.mem_cons_self) _

/-- The component of rate `1 / 2` misses the tick at the first step of the second simulation. -/
theorem not_isEven_secondRun :
    ¬exampleController.IsEven ⟨0, "half".toList, true⟩ (1 / 2) := fun h ↦
  absurd (h [.control] rfl) (by decide +kernel)

end Controller

end OpenHRP
