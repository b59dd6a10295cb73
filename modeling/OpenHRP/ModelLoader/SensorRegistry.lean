import OpenHRP.ModelLoader.CopyBody

/-!
# The sensors of a body

`Body::createSensor` keeps four records of a sensor: its slot in the table of its type, its entry in
`nameToSensorMap`, its `link` pointer, and its place in the list of that link. For a slot that is
taken, it moves the sensor that is there to the new link, but does not take it out of the list of
the old one.

So the records agree, from a new body on, exactly as long as no slot is used twice
(`createSensors_consistent_iff`).
-/

namespace OpenHRP.ModelLoader

variable {K : Type*}

/-! ### The program -/

/-- The arguments of a call of `createSensor`. -/
structure SensorCall where
  link : ℕ
  sensorType : ℕ
  id : ℤ
  name : String

variable [Field K]

/-- `Body::createSensor`, with its check of the type and the id. -/
def callCreateSensor (h : Heap K) (call : SensorCall) : Heap K :=
  match sensorTypes[call.sensorType]? with
  | some type =>
    if 0 ≤ call.id then createSensor h call.link type call.id.toNat call.name else h
  | none => h

omit [Field K] in
/-- A new body, with links that have no sensors. -/
structure Heap.NoSensors (h : Heap K) : Prop where
  allSensors : ∀ type, h.allSensors type = []
  sensors : ∀ i, (h.links i).sensors = []

/-! ### What the records should say -/

omit [Field K] in
/-- No two sensors that are stored have the same name. -/
def Heap.NamesDiffer (h : Heap K) : Prop :=
  ∀ type id sensor type' id' sensor', h.sensor type id = some sensor →
    h.sensor type' id' = some sensor' → sensor.name = sensor'.name → (type, id) = (type', id')

omit [Field K] in
/-- The records of the sensors agree. -/
structure Heap.SensorsConsistent (h : Heap K) : Prop where
  /-- A sensor is listed once, by the link that it points to. -/
  listed : ∀ type id sensor, h.sensor type id = some sensor → ∀ i,
    (h.links i).sensors.count (type, id) = if i = sensor.link then 1 else 0
  named : h.NamesDiffer → ∀ type id sensor, h.sensor type id = some sensor →
    h.nameToSensorMap sensor.name = some (type, id)

/-- The slot that a call takes, if it is one that makes sensors. -/
def SensorCall.slot (call : SensorCall) : Option (SensorType × ℕ) :=
  sensorTypes[call.sensorType]?.bind fun type ↦
    if 0 ≤ call.id ∧ type ≠ .common then some (type, call.id.toNat) else none

/-! ### One call -/

omit [Field K] in
/-- The records agree, and no other sensors are listed. -/
structure Heap.SensorsListed (h : Heap K) : Prop extends h.SensorsConsistent where
  stored : ∀ i type id, (type, id) ∈ (h.links i).sensors → (h.sensor type id).isSome
  common : ∀ id, h.sensor .common id = none

variable {type : SensorType}

theorem sensors_createSensor (h : Heap K) (link : ℕ) (htype : type ≠ .common) (id : ℕ)
    (name : String) (j : ℕ) :
    ((createSensor h link type id name).links j).sensors =
      (h.links j).sensors ++ if j = link then [(type, id)] else [] := by
  rw [links_createSensor h link htype]
  rcases eq_or_ne j link with rfl | hj
  · rw [Heap.pushSensor, Heap.setLink]
    simp
  · rw [Heap.pushSensor, Heap.setLink]
    simp [hj]

variable {h : Heap K} {id : ℕ}

/-- A sensor that is new erases no name. -/
theorem nameToSensorMap_createSensor (link : ℕ) (htype : type ≠ .common)
    (hnew : h.sensor type id = none) (name : String) :
    (createSensor h link type id name).nameToSensorMap =
      Function.update h.nameToSensorMap name (some (type, id)) := by
  have hold : (h.allSensors type ++
      List.replicate (id + 1 - (h.allSensors type).length) none)[id]?.join = none := by
    rw [join_getElem?_append_replicate]
    exact hnew
  simp only [createSensor, hold, Sensor.create, if_neg htype]
  rfl

/-- A call that takes no slot changes no record of a sensor. -/
theorem callCreateSensor_of_none (hcommon : ∀ id, h.sensor .common id = none) {call : SensorCall}
    (hslot : call.slot = none) :
    (∀ type id, (callCreateSensor h call).sensor type id = h.sensor type id) ∧
      (callCreateSensor h call).links = h.links ∧
      (callCreateSensor h call).nameToSensorMap = h.nameToSensorMap := by
  rw [callCreateSensor]
  rw [SensorCall.slot] at hslot
  rcases hcall : sensorTypes[call.sensorType]? with _ | type
  · exact ⟨fun _ _ ↦ rfl, rfl, rfl⟩
  rw [hcall, Option.bind_some] at hslot
  dsimp only
  split
  · next hid =>
    -- the table of the common sensors grows, and stays empty
    obtain rfl : type = .common := by
      by_contra htype
      rw [if_pos ⟨hid, htype⟩] at hslot
      cases hslot
    have hold : (h.allSensors .common ++ List.replicate
        (call.id.toNat + 1 - (h.allSensors .common).length) none)[call.id.toNat]?.join = none := by
      rw [join_getElem?_append_replicate]
      exact hcommon _
    refine ⟨fun type id ↦ ?_, ?_, ?_⟩
    · rw [sensor_createSensor]
      split
      · next heq =>
        rw [heq.1, heq.2, hcommon]
        rfl
      · rfl
    · simp only [createSensor, hold, Sensor.create, if_true]
      rfl
    · simp only [createSensor, hold, Sensor.create, if_true]
      rfl
  · exact ⟨fun _ _ ↦ rfl, rfl, rfl⟩

/-- A call that takes a slot makes a sensor. -/
theorem callCreateSensor_of_some (h : Heap K) {call : SensorCall}
    (hslot : call.slot = some (type, id)) :
    type ≠ .common ∧ callCreateSensor h call = createSensor h call.link type id call.name := by
  rw [SensorCall.slot] at hslot
  rw [callCreateSensor]
  rcases hcall : sensorTypes[call.sensorType]? with _ | type'
  · rw [hcall] at hslot
    cases hslot
  rw [hcall, Option.bind_some] at hslot
  split at hslot
  · next hmakes =>
    obtain ⟨rfl, rfl⟩ := Prod.mk.inj (Option.some.inj hslot)
    exact ⟨hmakes.2, if_pos hmakes.1⟩
  · cases hslot

theorem exists_sensor_createSensor (link : ℕ) (htype : type ≠ .common)
    (hnew : h.sensor type id = none) (name : String) :
    ∃ made : Sensor K, made.link = link ∧ made.name = name ∧ ∀ type' id',
      (createSensor h link type id name).sensor type' id' =
        if (type', id') = (type, id) then some made else h.sensor type' id' := by
  refine ⟨{ (⟨"", type.ofClass, 0, 0, 0, 0⟩ : Sensor K) with id := id, link := link, name := name },
    rfl, rfl, fun type' id' ↦ ?_⟩
  rw [sensor_createSensor, hnew, Option.none_or, Sensor.create, if_neg htype]
  simp only [Prod.mk.injEq]
  rfl

/-- A call that takes a free slot keeps the records. -/
theorem Heap.SensorsListed.createSensor (hh : h.SensorsListed) (link : ℕ) (htype : type ≠ .common)
    (hnew : h.sensor type id = none) (name : String) :
    (ModelLoader.createSensor h link type id name).SensorsListed := by
  obtain ⟨made, hlink, hname, hsensor⟩ := exists_sensor_createSensor link htype hnew name
  have hsensors := sensors_createSensor h link htype id name
  have hkept {ty : SensorType} {n : ℕ} {s : Sensor K} (hs : h.sensor ty n = some s) :
      (ty, n) ≠ (type, id) := by
    rintro heq
    obtain ⟨rfl, rfl⟩ := Prod.mk.inj heq
    cases hnew.symm.trans hs
  have hnotListed (i : ℕ) : (type, id) ∉ (h.links i).sensors := fun hmem ↦ by
    have hstored := hh.stored i type id hmem
    rw [hnew] at hstored
    cases hstored
  refine ⟨⟨fun ty n s hs i ↦ ?_, fun hdiffer ty n s hs ↦ ?_⟩, fun i ty n hmem ↦ ?_, fun n ↦ ?_⟩
  · rw [hsensor] at hs
    rw [hsensors, List.count_append]
    split at hs
    · next heq =>
      obtain rfl := Option.some.inj hs
      rw [heq, List.count_eq_zero.2 (hnotListed i), Nat.zero_add, hlink]
      split
      · exact List.count_singleton_self
      · rfl
    · next hne =>
      rw [hh.listed ty n s hs i]
      have hcount : List.count (ty, n) (if i = link then [(type, id)] else []) = 0 := by
        refine List.count_eq_zero.2 fun hmem ↦ hne ?_
        split at hmem
        · exact List.mem_singleton.1 hmem
        · exact absurd hmem List.not_mem_nil
      rw [hcount, Nat.add_zero]
  · rw [nameToSensorMap_createSensor link htype hnew]
    have hold : h.NamesDiffer := fun ty n s ty' n' s' hs hs' ↦
      hdiffer ty n s ty' n' s' (by rw [hsensor, if_neg (hkept hs), hs])
        (by rw [hsensor, if_neg (hkept hs'), hs'])
    have hmade : (ModelLoader.createSensor h link type id name).sensor type id = some made := by
      rw [hsensor, if_pos rfl]
    rcases eq_or_ne (ty, n) (type, id) with heq | hne
    · obtain ⟨rfl, rfl⟩ := Prod.mk.inj heq
      obtain rfl := Option.some.inj (hs.symm.trans hmade)
      rw [hname, Function.update_self]
    · have hs' := hs
      rw [hsensor, if_neg hne] at hs'
      rw [Function.update_of_ne fun hsame ↦
        hne (hdiffer ty n s type id made hs hmade (hsame.trans hname.symm))]
      exact hh.named hold ty n s hs'
  · rw [hsensors] at hmem
    rw [hsensor]
    split
    · rfl
    · next hne =>
      refine hh.stored i ty n ((List.mem_append.1 hmem).resolve_right fun hmem ↦ hne ?_)
      split at hmem
      · exact List.mem_singleton.1 hmem
      · exact absurd hmem List.not_mem_nil
  · rw [hsensor, if_neg fun heq ↦ htype (Prod.mk.inj heq).1.symm]
    exact hh.common n

/-! ### A slot that is used twice -/

omit [Field K] in
/-- A sensor that is stored is listed by two links, or twice by one. -/
def Heap.ListedTwice (h : Heap K) : Prop :=
  ∃ type id, (h.sensor type id).isSome ∧
    ((∃ i j, i ≠ j ∧ (type, id) ∈ (h.links i).sensors ∧ (type, id) ∈ (h.links j).sensors) ∨
      ∃ i, 2 ≤ (h.links i).sensors.count (type, id))

section

omit [Field K]

theorem Heap.ListedTwice.not_consistent (hh : h.ListedTwice) : ¬h.SensorsConsistent := by
  intro hconsistent
  obtain ⟨type, id, hstored, htwice⟩ := hh
  obtain ⟨sensor, hsensor⟩ := Option.isSome_iff_exists.1 hstored
  have hcount := hconsistent.listed type id sensor hsensor
  have hlink {i : ℕ} (hi : (type, id) ∈ (h.links i).sensors) : i = sensor.link := by
    by_contra hne
    have hzero := hcount i
    rw [if_neg hne] at hzero
    exact List.count_eq_zero.1 hzero hi
  rcases htwice with ⟨i, j, hij, hi, hj⟩ | ⟨i, hi⟩
  · exact hij ((hlink hi).trans (hlink hj).symm)
  · have hone := hcount i
    split at hone <;> omega

theorem sensors_pushSensor_sublist (h : Heap K) (link j : ℕ) (sensor : SensorType × ℕ) :
    (h.links j).sensors.Sublist ((h.pushSensor link sensor).links j).sensors := by
  rw [Heap.pushSensor, Heap.setLink]
  rcases eq_or_ne j link with rfl | hj
  · simp
  · simp [hj]

end

/-- No call takes a sensor out of a list. -/
theorem sensors_createSensor_sublist (h : Heap K) (link : ℕ) (type : SensorType) (id : ℕ)
    (name : String) (j : ℕ) :
    (h.links j).sensors.Sublist ((createSensor h link type id name).links j).sensors := by
  simp only [createSensor]
  generalize ((h.allSensors type ++ _)[id]?).join = old
  rcases hsensor : old.or (Sensor.create type) with _ | sensor
  · obtain rfl := (Option.or_eq_none_iff.1 hsensor).1
    exact List.Sublist.refl _
  · rcases old with _ | old <;> exact sensors_pushSensor_sublist _ _ _ _

/-- Sensors stay stored and listed. -/
theorem Heap.ListedTwice.callCreateSensor (hh : h.ListedTwice) (call : SensorCall) :
    (callCreateSensor h call).ListedTwice := by
  rw [ModelLoader.callCreateSensor]
  split
  · next type' _ =>
    split
    · obtain ⟨type, id, hstored, htwice⟩ := hh
      have hsub := sensors_createSensor_sublist h call.link type' call.id.toNat call.name
      refine ⟨type, id, ?_, htwice.imp ?_ ?_⟩
      · rw [sensor_createSensor]
        split
        · next heq =>
          obtain ⟨sensor, hsensor⟩ := Option.isSome_iff_exists.1 hstored
          rw [← heq.1, ← heq.2, hsensor]
          rfl
        · exact hstored
      · rintro ⟨i, j, hij, hi, hj⟩
        exact ⟨i, j, hij, (hsub i).subset hi, (hsub j).subset hj⟩
      · rintro ⟨i, hi⟩
        exact ⟨i, hi.trans ((hsub i).count_le _)⟩
    · exact hh
  · exact hh

/-- A call that takes a slot again lists the sensor there twice. -/
theorem Heap.SensorsListed.listedTwice (hh : h.SensorsListed) (link : ℕ) (htype : type ≠ .common)
    (hused : (h.sensor type id).isSome) (name : String) :
    (ModelLoader.createSensor h link type id name).ListedTwice := by
  obtain ⟨sensor, hsensor⟩ := Option.isSome_iff_exists.1 hused
  have hcount := hh.listed type id sensor hsensor sensor.link
  rw [if_pos rfl] at hcount
  have hsensors := sensors_createSensor h link htype id name
  refine ⟨type, id, ?_, ?_⟩
  · rw [sensor_createSensor, if_pos ⟨rfl, rfl⟩, hsensor]
    rfl
  rcases eq_or_ne sensor.link link with hlink | hlink
  · refine .inr ⟨sensor.link, ?_⟩
    rw [hsensors, if_pos hlink, List.count_append, hcount, List.count_singleton_self]
  · refine .inl ⟨sensor.link, link, hlink, ?_, ?_⟩
    · rw [hsensors]
      exact List.mem_append_left _ (List.count_pos_iff.1 (by omega))
    · rw [hsensors, if_pos rfl]
      exact List.mem_append_right _ (List.mem_singleton_self _)

/-! ### Runs -/

omit [Field K] in
theorem Heap.SensorsListed.congr {h h' : Heap K} (hh : h.SensorsListed)
    (hsensor : ∀ type id, h'.sensor type id = h.sensor type id) (hlinks : h'.links = h.links)
    (hnames : h'.nameToSensorMap = h.nameToSensorMap) : h'.SensorsListed := by
  refine ⟨⟨fun type id s hs i ↦ ?_, fun hdiffer type id s hs ↦ ?_⟩, fun i type id hmem ↦ ?_,
    fun id ↦ ?_⟩
  · rw [hsensor] at hs
    rw [hlinks]
    exact hh.listed type id s hs i
  · simp only [Heap.NamesDiffer, hsensor] at hdiffer hs
    rw [hnames]
    exact hh.named hdiffer type id s hs
  · rw [hlinks] at hmem
    rw [hsensor]
    exact hh.stored i type id hmem
  · rw [hsensor]
    exact hh.common id

/-- The records agree after a run from a state where they agree, exactly when no call takes a slot
that is in use. -/
theorem Heap.SensorsListed.foldl_iff (hh : h.SensorsListed) (calls : List SensorCall) :
    (calls.foldl callCreateSensor h).SensorsConsistent ↔
      (calls.filterMap SensorCall.slot).Nodup ∧
        ∀ slot ∈ calls.filterMap SensorCall.slot, h.sensor slot.1 slot.2 = none := by
  induction calls generalizing h with
  | nil => exact iff_of_true hh.toSensorsConsistent ⟨List.nodup_nil, by simp⟩
  | cons call calls ih =>
    rw [List.foldl_cons, List.filterMap_cons]
    rcases hslot : call.slot with _ | ⟨type, id⟩
    · obtain ⟨hsensor, hlinks, hnames⟩ := callCreateSensor_of_none hh.common hslot
      rw [ih (hh.congr hsensor hlinks hnames)]
      simp only [hsensor]
    · obtain ⟨htype, hcall⟩ := callCreateSensor_of_some h hslot
      rw [hcall]
      dsimp only
      rcases hused : h.sensor type id with _ | sensor
      · obtain ⟨made, -, -, hsensor⟩ :=
          exists_sensor_createSensor call.link htype hused call.name
        have hfree (slot : SensorType × ℕ) :
            (ModelLoader.createSensor h call.link type id call.name).sensor slot.1 slot.2 = none ↔
              slot ≠ (type, id) ∧ h.sensor slot.1 slot.2 = none := by
          rw [hsensor]
          split
          · next heq => exact iff_of_false (Option.some_ne_none made) fun hfree ↦ hfree.1 heq
          · next hne => exact (and_iff_right hne).symm
        rw [ih (hh.createSensor call.link htype hused call.name), List.nodup_cons,
          List.forall_mem_cons]
        simp only [hfree, hused, true_and, forall_and]
        constructor
        · rintro ⟨hnodup, hne, hnone⟩
          exact ⟨⟨fun hmem ↦ hne _ hmem rfl, hnodup⟩, hnone⟩
        · rintro ⟨⟨hnotMem, hnodup⟩, hnone⟩
          exact ⟨hnodup, fun slot hmem heq ↦ hnotMem (heq ▸ hmem), hnone⟩
      · have htwice := hh.listedTwice call.link htype (by rw [hused]; rfl) call.name
        have hrun := foldl_invariant htwice (fun _ call hs ↦ hs.callCreateSensor call) calls
        refine iff_of_false hrun.not_consistent fun hfree ↦ ?_
        have hnone := hfree.2 (type, id) List.mem_cons_self
        cases hused.symm.trans hnone

/-- **The records of the sensors agree** after a run of calls on a new body exactly when no two of
the calls take the same slot. -/
theorem createSensors_consistent_iff {h : Heap K} (hnew : h.NoSensors) (calls : List SensorCall) :
    (calls.foldl callCreateSensor h).SensorsConsistent ↔
      (calls.filterMap SensorCall.slot).Nodup := by
  have hnone (type : SensorType) (id : ℕ) : h.sensor type id = none := by
    rw [Heap.sensor, hnew.allSensors]
    rfl
  have hlisted : h.SensorsListed := by
    refine ⟨⟨fun type id s hs ↦ ?_, fun _ type id s hs ↦ ?_⟩, fun i type id hmem ↦ ?_, hnone _⟩
    · cases (hnone type id).symm.trans hs
    · cases (hnone type id).symm.trans hs
    · rw [hnew.sensors] at hmem
      cases hmem
  rw [hlisted.foldl_iff]
  exact and_iff_left fun slot _ ↦ hnone slot.1 slot.2

/-! ### A force sensor on two links -/

/-- Links without sensors. -/
def bareHeap : Heap ℚ :=
  ⟨fun _ ↦ ringLink 0, fun _ ↦ [], fun _ ↦ none⟩

theorem noSensors_bareHeap : bareHeap.NoSensors :=
  ⟨fun _ ↦ rfl, fun _ ↦ rfl⟩

theorem createSensors_consistent_iff_three :
    ([⟨0, 1, 0, "rhsensor"⟩, ⟨1, 1, 1, "lhsensor"⟩, ⟨0, 2, 0, "gyrometer"⟩].foldl callCreateSensor
      bareHeap).SensorsConsistent :=
  (createSensors_consistent_iff noSensors_bareHeap _).2 (by decide)

/-- A force sensor with an id that is in use moves from link 0 to link 1, and is listed by both. -/
theorem createSensor_listedTwice :
    let h := [⟨0, 1, 0, "rhsensor"⟩, ⟨1, 1, 0, "lhsensor"⟩].foldl callCreateSensor bareHeap
    (h.sensor .force 0).map Sensor.link = some 1 ∧ (.force, 0) ∈ (h.links 0).sensors ∧
      (.force, 0) ∈ (h.links 1).sensors ∧ ¬h.SensorsConsistent := by
  intro h
  have hlink : (h.sensor .force 0).map Sensor.link = some 1 := by decide
  have hfirst : (.force, 0) ∈ (h.links 0).sensors := by decide
  have hsecond : (.force, 0) ∈ (h.links 1).sensors := by decide
  have htwice : h.ListedTwice :=
    ⟨.force, 0, by decide, .inl ⟨0, 1, by decide, hfirst, hsecond⟩⟩
  exact ⟨hlink, hfirst, hsecond, htwice.not_consistent⟩

end OpenHRP.ModelLoader
