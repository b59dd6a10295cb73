import OpenHRP.ControllerBridge.BridgeConf

/-!
# The options that are parsed or rejected

The fields of a value can always be read, also when they are expanded (`extractParameters_eq`). What
each function makes of them is followed along its branches: `readPortInfo_typed` and
`portParsed_owned` for a port whose second field is a data type or has the owners, and one lemma for
each of the other functions. Together they say when a value is parsed or rejected
(`parsedOrRejected_iff`).
-/

namespace OpenHRP

open StdString DataTypeId

/-! ### Reading the fields -/

section Fields

variable {K : Type} {lib : BridgeLib K} {mode : Bool}

theorem exists_mapM_eq_ok {α β ε : Type} {f : α → Except ε β} (h : ∀ a, ∃ b, f a = .ok b)
    (l : List α) : ∃ l', l.mapM f = .ok l' ∧ l'.length = l.length := by
  induction l with
  | nil => exact ⟨[], rfl, rfl⟩
  | cons a l ih =>
    obtain ⟨b, hb⟩ := h a
    obtain ⟨l', hl', hlen⟩ := ih
    refine ⟨b :: l', ?_, congrArg Nat.succ hlen⟩
    rw [List.mapM_cons, hb, hl']
    rfl

/-- The fields can be read, and there is at least one. -/
theorem extractParameters_eq (lib : BridgeLib K) (mode : Bool) (str : StdString)
    (delimiter : Char) :
    extractParameters lib mode str delimiter = .ok (fieldsOf lib mode str delimiter) ∧
      fieldsOf lib mode str delimiter ≠ [] := by
  have hne : split str delimiter ≠ [] := by
    rw [split_eq, List.splitOn_eq_splitOnP]
    exact List.splitOnP_ne_nil _ _
  obtain ⟨l, hl, hlen⟩ : ∃ l, extractParameters lib mode str delimiter = .ok l ∧
      l.length = (split str delimiter).length := by
    rw [extractParameters]
    split_ifs
    · refine exists_mapM_eq_ok (fun field ↦ ?_) _
      obtain ⟨out, hout⟩ := exists_expandEnvironmentVariables_eq lib.getenv field
      exact ⟨out, by rw [hout]; rfl⟩
    · exact ⟨_, rfl, rfl⟩
  rw [fieldsOf, hl]
  refine ⟨rfl, fun hnil : l = [] ↦ hne ?_⟩
  rw [hnil] at hlen
  exact List.length_eq_zero_iff.1 hlen.symm

/-- An entry is added if and only if there is none of its name. -/
theorem insertEntry_eq_append_iff {V : Type*} {m : List (StdString × V)}
    {entry entry' : StdString × V} :
    insertEntry m entry = m ++ [entry'] ↔ m.lookup entry.1 = none ∧ entry' = entry := by
  rw [insertEntry]
  rcases m.lookup entry.1 with - | old
  · rw [if_neg (by simp), List.append_cancel_left_eq, List.singleton_inj, eq_comm]
    exact (and_iff_right rfl).symm
  · rw [if_pos Option.isSome_some]
    refine iff_of_false (fun h ↦ ?_) fun h ↦ Option.some_ne_none _ h.1
    exact List.cons_ne_nil _ _ (List.self_eq_append_right.1 h)

variable {owners : List StdString}

/-- Owners without a number are added to the names. -/
theorem foldlM_addOwner_names {size : ℕ} (hne : owners ≠ [])
    (h : ∀ owner ∈ owners, isDigits owner = false) (info : PortInfo K) :
    owners.foldlM (addOwner lib size) info = .ok { info with
      dataOwnerId := some (-1)
      dataOwnerName := info.dataOwnerName ++ owners } := by
  induction owners generalizing info with
  | nil => exact absurd rfl hne
  | cons owner owners ih =>
    rw [List.forall_mem_cons] at h
    have hadd : addOwner lib size info owner = .ok { info with
        dataOwnerId := some (-1)
        dataOwnerName := info.dataOwnerName ++ [owner] } := by
      rw [addOwner, if_neg (by rw [h.1]; exact Bool.false_ne_true)]
    rw [List.foldlM_cons, hadd]
    rcases owners with - | ⟨owner', owners⟩
    · rfl
    · refine (ih (List.cons_ne_nil _ _) h.2 _).trans ?_
      rw [List.append_assoc]
      rfl

theorem foldlM_addOwner_rejected {size : ℕ} (hsize : 1 < size)
    (h : ∃ owner ∈ owners, isDigits owner = true) (info : PortInfo K) :
    owners.foldlM (addOwner lib size) info =
      .error (.invalidArgument "invalid VisionSensor setting") := by
  induction owners generalizing info with
  | nil => exact absurd h (by rintro ⟨owner, howner, -⟩; exact List.not_mem_nil howner)
  | cons owner owners ih =>
    rw [List.foldlM_cons, addOwner]
    rcases hdigits : isDigits owner with - | -
    · rw [if_neg Bool.false_ne_true]
      refine ih ?_ _
      obtain ⟨owner', howner', hdigits'⟩ := h
      rcases List.mem_cons.1 howner' with rfl | hmem
      · exact absurd (hdigits.symm.trans hdigits') Bool.false_ne_true
      · exact ⟨owner', hmem, hdigits'⟩
    · rw [if_pos rfl, if_pos hsize]
      rfl

theorem isDigits_nil : isDigits [] = true := rfl

/-- Owners that are not rejected are read, and a single empty one as a number. -/
theorem exists_foldlM_addOwner (hne : owners ≠ []) (h : ¬OwnersRejected owners) {info : PortInfo K}
    (hinfo : info.dataOwnerName = []) :
    ∃ names id, owners.foldlM (addOwner lib owners.length) info =
        .ok { info with dataOwnerName := names, dataOwnerId := some id } ∧
      (1 < names.length ↔ 1 < owners.length) ∧
      (IsOwner lib owners names (some id) ↔ owners ≠ [[]]) := by
  by_cases hdigits : ∃ owner ∈ owners, isDigits owner = true
  · -- a number stands alone
    have hlen : ¬1 < owners.length := fun hlen ↦ h ⟨hlen, hdigits⟩
    obtain ⟨owner, rfl⟩ : ∃ owner, owners = [owner] := by
      refine List.length_eq_one_iff.1 ?_
      have hpos := List.length_pos_iff.2 hne
      omega
    obtain ⟨owner', howner, hdigits⟩ := hdigits
    obtain rfl := List.mem_singleton.1 howner
    refine ⟨[], lib.atoi owner', ?_, by simp, ?_⟩
    · rw [List.foldlM_cons, addOwner, if_pos hdigits, if_neg (by simp)]
      rfl
    · constructor
      · intro hown hnil
        obtain rfl := (List.cons.inj hnil).1
        cases hown with
        | number hne h => exact hne rfl
      · intro hown
        exact .number (fun hnil ↦ hown (by rw [hnil])) hdigits
  · push Not at hdigits
    have hdigits' : ∀ owner ∈ owners, isDigits owner = false := fun owner howner ↦
      Bool.eq_false_iff.2 (hdigits owner howner)
    refine ⟨owners, -1, ?_, Iff.rfl, iff_of_true (.names hdigits') ?_⟩
    · rw [foldlM_addOwner_names hne hdigits', hinfo, List.nil_append]
    · rintro rfl
      exact hdigits [] (List.mem_singleton_self _) isDigits_nil

variable {name st label : StdString} {t : DataTypeId} {tail : List StdString}

theorem readDataType_typed (lib : BridgeLib K) (mode : Bool) (name : StdString)
    (tail : List StdString) (h : dataTypeOf st = some t) (info : PortInfo K) :
    readDataType lib mode (name :: st :: tail) info = .ok ({ info with dataTypeId := t }, 2) := by
  simp [readDataType, parameterAt, h, bind, Except.bind, pure, Except.pure]

theorem readDataType_rejected (h : dataTypeOf st = none)
    (hown : OwnersRejected (fieldsOf lib mode st ',')) (info : PortInfo K) :
    readDataType lib mode (name :: st :: tail) info =
      .error (.invalidArgument "invalid VisionSensor setting") := by
  have hfold : (fieldsOf lib mode st ',').foldlM
      (addOwner lib (fieldsOf lib mode st ',').length) info =
        .error (.invalidArgument "invalid VisionSensor setting") :=
    foldlM_addOwner_rejected hown.1 hown.2 info
  simp [readDataType, parameterAt, h, bind, Except.bind, (extractParameters_eq lib mode st ',').1,
    hfold]

/-- Owners that are not rejected are read, and then the field behind them. -/
theorem exists_readDataType_eq (name : StdString) (tail : List StdString)
    (h : dataTypeOf st = none) (hown : ¬OwnersRejected (fieldsOf lib mode st ','))
    (info : PortInfo K) (hinfo : info.dataOwnerName = []) :
    ∃ names id, readDataType lib mode (name :: st :: tail) info =
        (parameterAt tail 0).bind (fun label ↦ (dataTypeOf label).elim
          (.error (.invalidArgument "invalid data type")) fun t ↦
            .ok ({ info with
              dataTypeId := t
              dataOwnerName := names
              dataOwnerId := some id }, 3)) ∧
      (1 < names.length ↔ 1 < (fieldsOf lib mode st ',').length) ∧
      (IsOwner lib (fieldsOf lib mode st ',') names (some id) ↔
        fieldsOf lib mode st ',' ≠ [[]]) := by
  obtain ⟨hfields, hne⟩ := extractParameters_eq lib mode st ','
  obtain ⟨names, id, hfold, hnames⟩ := exists_foldlM_addOwner hne hown hinfo
  refine ⟨names, id, ?_, hnames⟩
  rcases tail with - | ⟨label, tail⟩
  · simp [readDataType, parameterAt, h, bind, Except.bind, hfields, hfold]
  · rcases hlabel : dataTypeOf label with - | t
    · simp [readDataType, parameterAt, h, bind, Except.bind, hfields, hfold, hlabel, throw,
        throwThe, MonadExceptOf.throw]
    · simp [readDataType, parameterAt, h, bind, Except.bind, hfields, hfold, hlabel, pure,
        Except.pure]

section Zero

variable [Zero K]

theorem readPortInfo_eq (htail : tail.length ≤ 2) :
    readPortInfo lib mode (name :: st :: tail) =
      (readDataType lib mode (name :: st :: tail) ⟨name, INVALID_DATA_TYPE, [], none, 0⟩).bind
        fun r ↦ finishPortInfo lib (name :: st :: tail) r.1 r.2 := by
  have hmin : ¬tail.length + 1 + 1 < 2 := by omega
  have hmax : ¬4 < tail.length + 1 + 1 := by omega
  simp [readPortInfo, parameterAt, bind, hmin, hmax, Except.bind]

theorem finishPortInfo_eq (parameters : List StdString) (info : PortInfo K) (j : ℕ) :
    finishPortInfo lib parameters info j =
      if info.dataTypeId = CONSTRAINT_FORCE ∧ 1 < info.dataOwnerName.length then
        .error (.invalidArgument "invalid in port setting")
      else .ok { info with stepTime := parameters[j]?.elim 0 lib.atof } := by
  by_cases hj : j < parameters.length
  · simp [finishPortInfo, parameterAt, hj, bind, Except.bind, pure, Except.pure, throw, throwThe,
      MonadExceptOf.throw, Functor.map, Except.map]
  · simp [finishPortInfo, hj, bind, Except.bind, pure, Except.pure, throw, throwThe,
      MonadExceptOf.throw]

/-! ### The ports -/

variable {port : StdString} {portInfos : List (StdString × PortInfo K)} {info : PortInfo K}

/-- A port is parsed or rejected. -/
def PortParsed (lib : BridgeLib K) (mode : Bool) (portInfos : List (StdString × PortInfo K))
    (port : StdString) : Prop :=
  ParsedOrRejected (setPortInfos lib mode [port] portInfos) portInfos
    (fun entry ↦ portInfos ++ [entry]) fun entry ↦
      entry.1 = entry.2.portName ∧ IsPortInfo lib mode (fieldsOf lib mode port ':') entry.2

theorem parsePortInfo_eq (lib : BridgeLib K) (mode : Bool) (port : StdString) :
    parsePortInfo lib mode port = readPortInfo lib mode (fieldsOf lib mode port ':') := by
  rw [parsePortInfo, (extractParameters_eq lib mode port ':').1]
  rfl

theorem portParsed_of_error (what : String)
    (h : readPortInfo lib mode (fieldsOf lib mode port ':') = .error (.invalidArgument what)) :
    PortParsed lib mode portInfos port := by
  refine .inl ⟨what, ?_⟩
  rw [setPortInfos, parsePortInfo_eq, h]

theorem not_portParsed_of_outOfRange
    (h : readPortInfo lib mode (fieldsOf lib mode port ':') = .error .outOfRange) :
    ¬PortParsed lib mode portInfos port := by
  rw [PortParsed, setPortInfos, parsePortInfo_eq, h]
  rintro (⟨what, h⟩ | ⟨entry, h, -⟩)
  · cases h
  · cases h

/-- Settings that have been read make an entry if and only if their name is new. -/
theorem portParsed_iff (h : readPortInfo lib mode (fieldsOf lib mode port ':') = .ok info) :
    PortParsed lib mode portInfos port ↔ portInfos.lookup info.portName = none ∧
      IsPortInfo lib mode (fieldsOf lib mode port ':') info := by
  rw [PortParsed, setPortInfos, parsePortInfo_eq, h]
  dsimp only
  rw [setPortInfos]
  constructor
  · rintro (⟨what, h⟩ | ⟨entry, h, hentry, hinfo⟩)
    · cases h
    · obtain ⟨hnew, rfl⟩ := insertEntry_eq_append_iff.1 (Prod.mk.inj h).2
      exact ⟨hnew, hinfo⟩
  · rintro ⟨hnew, hinfo⟩
    refine .inr ⟨(info.portName, info), ?_, rfl, hinfo⟩
    rw [insertEntry_eq_append_iff.2 ⟨hnew, rfl⟩]

theorem readPortInfo_typed (lib : BridgeLib K) (mode : Bool) (name : StdString)
    (h : dataTypeOf st = some t) (htail : tail.length ≤ 2) :
    readPortInfo lib mode (name :: st :: tail) =
      .ok ⟨name, t, [], none, tail.head?.elim 0 lib.atof⟩ := by
  rw [readPortInfo_eq htail, readDataType_typed _ _ _ _ h]
  show finishPortInfo lib _ _ 2 = _
  rw [finishPortInfo_eq, if_neg (fun hmany ↦ absurd hmany.2 (Nat.not_lt_zero 1))]
  rcases tail with - | ⟨time, tail⟩ <;> rfl

theorem portParsed_typed (hport : fieldsOf lib mode port ':' = name :: st :: tail)
    (h : dataTypeOf st = some t) (htail : tail.length ≤ 1) :
    PortParsed lib mode portInfos port ↔ portInfos.lookup name = none := by
  have hread := readPortInfo_typed lib mode name h (Nat.le_succ_of_le htail)
  rw [← hport] at hread
  rw [portParsed_iff hread, hport]
  refine and_iff_left ?_
  rcases tail with - | ⟨time, - | ⟨_, tail⟩⟩
  · exact .typed h
  · exact .timed h
  · exact absurd htail (by simp)

omit [Zero K] in
theorem IsOwner.isSome {owners names : List StdString} {id : Option ℤ}
    (h : IsOwner lib owners names id) : id.isSome = true := by
  cases h <;> rfl

variable {parameters : List StdString}

/-- The settings for four fields have an owner. -/
theorem IsPortInfo.isSome_dataOwnerId (h : IsPortInfo lib mode parameters info)
    (hlen : parameters.length = 4) : info.dataOwnerId.isSome = true := by
  cases h with
  | typed h => cases hlen
  | timed h => cases hlen
  | owned howner h => cases hlen
  | ownedTimed howner h => exact howner.isSome

/-- A field at the first place that is no data type has the owners of the settings. -/
theorem IsPortInfo.isOwner (h : IsPortInfo lib mode parameters info)
    (hst : parameters[1]? = some st) (hnone : dataTypeOf st = none) :
    IsOwner lib (fieldsOf lib mode st ',') info.dataOwnerName info.dataOwnerId := by
  cases h with
  | typed h => exact absurd h (Option.some.inj hst ▸ hnone ▸ (Option.some_ne_none _).symm)
  | timed h => exact absurd h (Option.some.inj hst ▸ hnone ▸ (Option.some_ne_none _).symm)
  | owned howner h => exact Option.some.inj hst ▸ howner
  | ownedTimed howner h => exact Option.some.inj hst ▸ howner

/-- A fourth field behind a data type is neither read nor rejected. -/
theorem not_portParsed_typed {x y : StdString}
    (hport : fieldsOf lib mode port ':' = [name, st, x, y]) (h : dataTypeOf st = some t) :
    ¬PortParsed lib mode portInfos port := by
  have hread := readPortInfo_typed lib mode name h (show [x, y].length ≤ 2 from Nat.le_refl 2)
  rw [← hport] at hread
  rw [portParsed_iff hread, hport]
  exact fun hinfo ↦ Bool.false_ne_true (hinfo.2.isSome_dataOwnerId rfl)

theorem not_portParsed_two (hport : fieldsOf lib mode port ':' = [name, st])
    (h : dataTypeOf st = none) (hown : ¬OwnersRejected (fieldsOf lib mode st ',')) :
    ¬PortParsed lib mode portInfos port := by
  refine not_portParsed_of_outOfRange ?_
  obtain ⟨names, id, hread, -⟩ := exists_readDataType_eq name [] h hown
    ⟨name, INVALID_DATA_TYPE, [], none, 0⟩ rfl
  rw [hport, readPortInfo_eq (Nat.zero_le _), hread]
  rfl

/-- Owners that are rejected reject the port. -/
theorem portParsed_of_rejected (hport : fieldsOf lib mode port ':' = name :: st :: tail)
    (htail : tail.length ≤ 2) (h : dataTypeOf st = none)
    (hown : OwnersRejected (fieldsOf lib mode st ',')) : PortParsed lib mode portInfos port := by
  refine portParsed_of_error "invalid VisionSensor setting" ?_
  rw [hport, readPortInfo_eq htail, readDataType_rejected h hown]
  rfl

/-- A port whose second field has the owners, with the data type and perhaps the period behind. -/
theorem portParsed_owned {times : List StdString}
    (hport : fieldsOf lib mode port ':' = name :: st :: label :: times)
    (h : dataTypeOf st = none) (htimes : times.length ≤ 1) :
    PortParsed lib mode portInfos port ↔
      OwnedCondition portInfos name (fieldsOf lib mode st ',') label := by
  have htail : (label :: times).length ≤ 2 := Nat.succ_le_succ htimes
  by_cases hown : OwnersRejected (fieldsOf lib mode st ',')
  · exact iff_of_true (portParsed_of_rejected hport htail h hown) (.inl hown)
  obtain ⟨names, id, hread, hnames, hisOwner⟩ := exists_readDataType_eq name (label :: times) h hown
    ⟨name, INVALID_DATA_TYPE, [], none, 0⟩ rfl
  have hlabel0 : parameterAt (label :: times) 0 = .ok label := rfl
  rw [hlabel0] at hread
  rw [OwnedCondition, or_iff_right hown]
  rcases hlabel : dataTypeOf label with - | t
  · refine iff_of_true (portParsed_of_error "invalid data type" ?_) (.inl rfl)
    rw [hport, readPortInfo_eq htail, hread, Except.bind, hlabel]
    rfl
  have hinfo : readPortInfo lib mode (fieldsOf lib mode port ':') =
      finishPortInfo lib (name :: st :: label :: times) ⟨name, t, names, some id, 0⟩ 3 := by
    rw [hport, readPortInfo_eq htail, hread, Except.bind, hlabel]
    rfl
  rw [finishPortInfo_eq] at hinfo
  rw [or_iff_right (Option.some_ne_none _), Option.some_inj, ← hnames]
  by_cases hforce : t = CONSTRAINT_FORCE ∧ 1 < names.length
  · rw [if_pos hforce] at hinfo
    exact iff_of_true (portParsed_of_error _ hinfo) (.inl hforce)
  · rw [if_neg hforce] at hinfo
    rw [or_iff_right hforce, portParsed_iff hinfo, ← hisOwner, hport]
    refine and_congr_right fun _ ↦ ⟨fun hport ↦ hport.isOwner rfl h, fun howner ↦ ?_⟩
    rcases times with - | ⟨time, - | ⟨_, times⟩⟩
    · exact .owned howner hlabel
    · exact .ownedTimed howner hlabel
    · exact absurd htimes (by simp)

theorem portParsed_of_length (hlen : parameters.length < 2 ∨ 4 < parameters.length)
    (hport : fieldsOf lib mode port ':' = parameters) : PortParsed lib mode portInfos port := by
  refine portParsed_of_error "invalid in port setting" ?_
  have hcond : (decide (parameters.length < 2) || decide (parameters.length > 4)) = true := by
    rcases hlen with h | h
    · rw [decide_eq_true h, Bool.true_or]
    · rw [decide_eq_true h, Bool.or_true]
  rw [hport, readPortInfo]
  dsimp only
  rw [if_pos hcond]
  rfl

theorem portParsed_iff_condition : PortParsed lib mode portInfos port ↔
    PortCondition lib mode portInfos (fieldsOf lib mode port ':') := by
  rcases hport : fieldsOf lib mode port ':' with - | ⟨name, - | ⟨st, tail⟩⟩
  · exact absurd hport (extractParameters_eq lib mode port ':').2
  · exact iff_of_true (portParsed_of_length (.inl (by simp)) hport) trivial
  rcases hst : dataTypeOf st with - | t
  · rcases tail with - | ⟨label, - | ⟨time, - | ⟨x, tail⟩⟩⟩
    · rw [PortCondition, hst, if_neg (by simp)]
      exact ⟨fun h ↦ by_contra fun hown ↦ not_portParsed_two hport hst hown h,
        portParsed_of_rejected hport (Nat.zero_le _) hst⟩
    · rw [PortCondition, hst, if_neg (by simp)]
      exact portParsed_owned hport hst (Nat.zero_le _)
    · rw [PortCondition, and_iff_right hst]
      exact portParsed_owned hport hst (Nat.le_refl 1)
    · exact iff_of_true (portParsed_of_length (.inr (by simp)) hport) trivial
  · rcases tail with - | ⟨label, - | ⟨time, - | ⟨x, tail⟩⟩⟩
    · rw [PortCondition, hst, if_pos Option.isSome_some]
      exact portParsed_typed hport hst (Nat.zero_le _)
    · rw [PortCondition, hst, if_pos Option.isSome_some]
      exact portParsed_typed hport hst (Nat.le_refl 1)
    · refine iff_of_false (not_portParsed_typed hport hst) fun h ↦ ?_
      exact Option.some_ne_none _ (hst.symm.trans h.1)
    · exact iff_of_true (portParsed_of_length (.inr (by simp)) hport) trivial

end Zero

/-! ### The other entries -/

variable {conf : BridgeConf K} {value : StdString}

theorem parsedOrRejected_addPortConnection (lib : BridgeLib K) (conf : BridgeConf K)
    (value : StdString) : ParsedOrRejected (conf.addPortConnection lib value) conf
      (fun connection ↦ { conf with portConnections := conf.portConnections ++ [connection] })
      (IsPortConnection conf.moduleInfoList.length
        (fieldsOf lib conf.isProcessingConfigFile value ':')) := by
  have hfields := (extractParameters_eq lib conf.isProcessingConfigFile value ':').1
  rw [BridgeConf.addPortConnection, BridgeConf.parsePortConnection, hfields]
  rcases fieldsOf lib conf.isProcessingConfigFile value ':' with
    - | ⟨robotPort, - | ⟨x, - | ⟨port, - | ⟨y, l⟩⟩⟩⟩
  · exact .inl ⟨"Invalied port connection", rfl⟩
  · exact .inl ⟨"Invalied port connection", rfl⟩
  · by_cases hmodules : conf.moduleInfoList.length = 1
    · refine .inr ⟨⟨robotPort, [], x⟩, ?_, .unnamed hmodules⟩
      simp [hmodules, bind, Except.bind, parameterAt, store, pure, Except.pure]
    · refine .inl ⟨"RTC instance name must be specified in a connection option", ?_⟩
      simp [hmodules, bind, Except.bind, parameterAt, store, throw, throwThe, MonadExceptOf.throw]
  · exact .inr ⟨⟨robotPort, x, port⟩, rfl, .named⟩
  · refine .inl ⟨"Invalied port connection", ?_⟩
    simp [bind, Except.bind, store, throw, throwThe, MonadExceptOf.throw]

theorem parsedOrRejected_addModuleInfo (lib : BridgeLib K) (conf : BridgeConf K)
    (value : StdString) : ParsedOrRejected (conf.addModuleInfo lib value) conf
      (fun info ↦ { conf with moduleInfoList := conf.moduleInfoList ++ [info] })
      (IsModuleInfo lib (fieldsOf lib conf.isProcessingConfigFile value ':')) := by
  have hfields := (extractParameters_eq lib conf.isProcessingConfigFile value ':').1
  rw [BridgeConf.addModuleInfo, BridgeConf.parseModuleInfo, hfields]
  rcases fieldsOf lib conf.isProcessingConfigFile value ':' with
    - | ⟨fileName, - | ⟨initFuncName, - | ⟨x, l⟩⟩⟩
  · exact .inl ⟨"invalid module set", rfl⟩
  · exact .inr ⟨_, rfl, .file⟩
  · exact .inr ⟨_, rfl, .init⟩
  · refine .inl ⟨"invalid module set", ?_⟩
    simp [bind, Except.bind, store, throw, throwThe, MonadExceptOf.throw]

theorem parsedOrRejected_addTimeRateInfo_iff (lib : BridgeLib K) (conf : BridgeConf K)
    (value : StdString) : ParsedOrRejected (conf.addTimeRateInfo lib value) conf
      (fun entry ↦ { conf with timeRateMap := conf.timeRateMap ++ [entry] })
      (fun entry ↦ ∃ rate, fieldsOf lib conf.isProcessingConfigFile value ':' = [entry.1, rate] ∧
        entry.2 = lib.atof rate) ↔
      TimeRateCondition conf.timeRateMap (fieldsOf lib conf.isProcessingConfigFile value ':') := by
  have hfields := (extractParameters_eq lib conf.isProcessingConfigFile value ':').1
  rw [BridgeConf.addTimeRateInfo, BridgeConf.parseTimeRateInfo, hfields]
  rcases fieldsOf lib conf.isProcessingConfigFile value ':' with
    - | ⟨name, - | ⟨rate, - | ⟨x, l⟩⟩⟩
  · exact iff_of_true (.inl ⟨"invalid time rate set", rfl⟩) trivial
  · refine iff_of_false ?_ id
    rintro (⟨what, h⟩ | ⟨entry, h, -⟩) <;> cases h
  · constructor
    · rintro (⟨what, h⟩ | ⟨entry, h, -⟩)
      · cases h
      · exact (insertEntry_eq_append_iff.1 (congrArg (fun run ↦ run.2.timeRateMap) h)).1
    · intro hnew
      refine .inr ⟨(name, lib.atof rate), ?_, rate, rfl, rfl⟩
      have hinsert : insertEntry conf.timeRateMap (name, lib.atof rate) =
          conf.timeRateMap ++ [(name, lib.atof rate)] := insertEntry_eq_append_iff.2 ⟨hnew, rfl⟩
      show _ = (Except.ok (), { conf with
        timeRateMap := conf.timeRateMap ++ [(name, lib.atof rate)] })
      rw [← hinsert]
      rfl
  · refine iff_of_true (.inl ⟨"invalid time rate set", ?_⟩) trivial
    simp [bind, Except.bind, store, throw, throwThe, MonadExceptOf.throw]

/-- Each of the four functions parses a value or rejects it, if and only if the fields of the value
meet its condition. Connections and modules have none. -/
theorem parsedOrRejected_iff [Zero K] (lib : BridgeLib K) (conf : BridgeConf K)
    (portInfos : List (StdString × PortInfo K)) (value : StdString) :
    (ParsedOrRejected (setPortInfos lib conf.isProcessingConfigFile [value] portInfos) portInfos
        (fun entry ↦ portInfos ++ [entry])
        (fun entry ↦ entry.1 = entry.2.portName ∧ IsPortInfo lib conf.isProcessingConfigFile
          (fieldsOf lib conf.isProcessingConfigFile value ':') entry.2) ↔
      PortCondition lib conf.isProcessingConfigFile portInfos
        (fieldsOf lib conf.isProcessingConfigFile value ':')) ∧
    ParsedOrRejected (conf.addPortConnection lib value) conf
      (fun connection ↦ { conf with portConnections := conf.portConnections ++ [connection] })
      (IsPortConnection conf.moduleInfoList.length
        (fieldsOf lib conf.isProcessingConfigFile value ':')) ∧
    ParsedOrRejected (conf.addModuleInfo lib value) conf
      (fun info ↦ { conf with moduleInfoList := conf.moduleInfoList ++ [info] })
      (IsModuleInfo lib (fieldsOf lib conf.isProcessingConfigFile value ':')) ∧
    (ParsedOrRejected (conf.addTimeRateInfo lib value) conf
        (fun entry ↦ { conf with timeRateMap := conf.timeRateMap ++ [entry] })
        (fun entry ↦ ∃ rate, fieldsOf lib conf.isProcessingConfigFile value ':' = [entry.1, rate] ∧
          entry.2 = lib.atof rate) ↔
      TimeRateCondition conf.timeRateMap
        (fieldsOf lib conf.isProcessingConfigFile value ':')) :=
  ⟨portParsed_iff_condition, parsedOrRejected_addPortConnection lib conf value,
    parsedOrRejected_addModuleInfo lib conf value,
    parsedOrRejected_addTimeRateInfo_iff lib conf value⟩

end Fields

/-- Libraries without environment variables, whose conversions give zero. -/
def zeroLib : BridgeLib ℕ := ⟨fun _ ↦ none, fun _ ↦ 0, fun _ ↦ 0, id⟩

/-- The value `p:x` has two fields, and the third one is read. -/
theorem not_parsedOrRejected_twoFields :
    ¬ParsedOrRejected (setPortInfos zeroLib false ["p:x".toList] []) []
      (fun entry ↦ [entry]) (fun entry ↦ entry.1 = entry.2.portName ∧
        IsPortInfo zeroLib false (fieldsOf zeroLib false "p:x".toList ':') entry.2) := by
  have hrun : setPortInfos zeroLib false ["p:x".toList] [] = (.error .outOfRange, []) := rfl
  rw [hrun]
  rintro (⟨what, h⟩ | ⟨entry, h, -⟩) <;> cases h

end OpenHRP
