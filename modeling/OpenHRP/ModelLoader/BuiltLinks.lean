import OpenHRP.ModelLoader.CreateBody

/-!
# What a loaded body consists of

The recursion of `createLink` writes every link once, from its record and the rotation `Rs` of its
parent; what it does later, to other links and to the sensor tables, leaves the link as it is
(`build_link`). Every sensor of the body comes from a record of its link (`build_sensor`), and a
record with an id and a known type has a sensor (`isSome_build_sensor`).
-/

open Matrix

namespace OpenHRP.ModelLoader

variable {K : Type*} [Field K] [CMath K]

/-! ### Links -/

omit [Field K] [CMath K] in
/-- A link without the list of its sensors. -/
def ModelLink.dropSensors (link : ModelLink K) : ModelLink K :=
  { link with sensors := [] }

omit [Field K] [CMath K] in
/-- A link with more lights. -/
def ModelLink.addLights (link : ModelLink K) (lights : List (Light K)) : ModelLink K :=
  { link with lights := link.lights ++ lights }

omit [Field K] [CMath K] in
/-- The links of a heap without their sensors. -/
def Heap.bare (h : Heap K) (i : ℕ) : ModelLink K :=
  (h.links i).dropSensors

variable (h : Heap K)

section

omit [Field K] [CMath K]

@[simp]
theorem Heap.bare_Rs (i : ℕ) : (h.bare i).Rs = (h.links i).Rs :=
  rfl

theorem Heap.bare_pushSensor (i : ℕ) (sensor : SensorType × ℕ) :
    (h.pushSensor i sensor).bare = h.bare := by
  funext j
  by_cases hj : j = i
  · subst hj
    simp [bare, pushSensor, setLink, ModelLink.dropSensors]
  · simp [bare, pushSensor, setLink, hj]

end

omit [CMath K] in
theorem bare_createSensor (link : ℕ) (type : SensorType) (id : ℕ) (name : String) :
    (createSensor h link type id name).bare = h.bare := by
  simp only [createSensor]
  generalize ((h.allSensors type ++ _)[id]?).join = old
  rcases old with _ | sensor
  · rcases Sensor.create type with _ | sensor
    · rfl
    · exact Heap.bare_pushSensor _ _ _
  · exact Heap.bare_pushSensor _ _ _

/-- Making sensors changes nothing else about the links. -/
theorem bare_createSensors (link : ℕ) (l : List (SensorInfo K)) (Rs : Matrix33 K) (h : Heap K) :
    (createSensors link l Rs h).bare = h.bare := by
  induction l generalizing h with
  | nil => rfl
  | cons sensorInfo l ih =>
    rw [createSensors, List.foldl_cons, ← createSensors, ih, createSensorOf]
    split_ifs
    · rfl
    · exact bare_createSensor _ _ _ _ _

omit [CMath K] in
theorem bare_createLights (link : ℕ) (l : List (LightInfo K)) (h : Heap K) :
    (createLights link l h).bare =
      Function.update h.bare link ((h.bare link).addLights (l.map (makeLight link))) := by
  induction l generalizing h with
  | nil =>
    rw [List.map_nil, ModelLink.addLights, List.append_nil]
    exact (Function.update_eq_self link h.bare).symm
  | cons lightInfo l ih =>
    rw [createLights, List.foldl_cons, ← createLights, ih]
    funext j
    by_cases hj : j = link
    · subst hj
      simp [Heap.bare, Heap.pushLight, Heap.setLink, ModelLink.dropSensors, ModelLink.addLights]
    · simp [Heap.bare, Heap.pushLight, Heap.setLink, hj]

variable (maxlimit : K)

/-- The link that a record gives, from the `Rs` of the parent. -/
def madeLink (i : ℕ) (linkInfo : LinkInfo K) (parentRs : Matrix33 K) : ModelLink K :=
  (makeLink maxlimit linkInfo parentRs).addLights (linkInfo.lights.map (makeLight i))

variable {linkInfoSeq : List (LinkInfo K)} {maxlimit}

omit [Field K] [CMath K] in
theorem Heap.bare_setLink (i : ℕ) (link : ModelLink K) :
    (h.setLink i link).bare = Function.update h.bare i link.dropSensors := by
  funext j
  by_cases hj : j = i
  · subst hj
    simp [bare, setLink]
  · simp [bare, setLink, hj]

variable (maxlimit linkInfoSeq) in
/-- What the recursion leaves behind after a link and all below it. -/
def buildLink (linkInfo : LinkInfo K) (l : ℕ) (c : LinkPtr ℕ) (Rs : Matrix33 K) (heap : Heap K) :
    Heap K :=
  let link := makeLink maxlimit linkInfo Rs
  createLights l linkInfo.lights <| createSensors l linkInfo.sensors link.Rs <|
    build maxlimit linkInfoSeq c link.Rs (heap.setLink l link)

variable {linkInfo : LinkInfo K}

theorem build_link {l : ℕ} (hl : linkInfoSeq[l]? = some linkInfo)
    (c s : LinkPtr ℕ) (Rs : Matrix33 K) (heap : Heap K) :
    build maxlimit linkInfoSeq (.link l c s) Rs heap =
      build maxlimit linkInfoSeq s Rs (buildLink maxlimit linkInfoSeq linkInfo l c Rs heap) := by
  rw [build, hl]
  rfl

variable {ptr : LinkPtr ℕ}

/-- The recursion leaves the other links alone. -/
theorem bare_build_of_notMem {i : ℕ} (h : i ∉ ptr.links) (Rs : Matrix33 K)
    (heap : Heap K) : (build maxlimit linkInfoSeq ptr Rs heap).bare i = heap.bare i := by
  induction ptr generalizing Rs heap with
  | null => rfl
  | link l c s ihc ihs =>
    simp only [LinkPtr.links_link, List.mem_cons, List.mem_append, not_or] at h
    rcases hl : linkInfoSeq[l]? with _ | linkInfo
    · rw [build, hl, ihs h.2.2]
      rfl
    · rw [build_link hl, ihs h.2.2, buildLink, bare_createLights, Function.update_of_ne h.1,
        bare_createSensors, ihc h.2.1,
        Heap.bare_setLink, Function.update_of_ne h.1]

/-- A link is as its record makes it, whatever is made below it. -/
theorem bare_buildLink {l : ℕ} {c : LinkPtr ℕ} (hlc : l ∉ c.links) (linkInfo : LinkInfo K)
    (Rs : Matrix33 K) (heap : Heap K) :
    (buildLink maxlimit linkInfoSeq linkInfo l c Rs heap).bare =
      Function.update (build maxlimit linkInfoSeq c (makeLink maxlimit linkInfo Rs).Rs
        (heap.setLink l (makeLink maxlimit linkInfo Rs))).bare l
          (madeLink maxlimit l linkInfo Rs) := by
  rw [buildLink, bare_createLights, bare_createSensors, bare_build_of_notMem hlc, Heap.bare_setLink,
    Function.update_self]
  rfl

variable {Rs : Matrix33 K}

/-- The recursion makes every link from its record and its parent. -/
theorem bare_build {p : ℕ} {z : ℤ} {heap : Heap K} (hrecords : Records linkInfoSeq z ptr)
    (hnd : ptr.links.Nodup) (hp : p ∉ ptr.links) (hRs : (heap.bare p).Rs = Rs) {q i : ℕ}
    (hjoins : ptr.Joins p q i) (hget : linkInfoSeq[i]? = some linkInfo) :
    (build maxlimit linkInfoSeq ptr Rs heap).bare i =
      madeLink maxlimit i linkInfo ((build maxlimit linkInfoSeq ptr Rs heap).bare q).Rs := by
  induction ptr generalizing p z Rs heap with
  | null => exact hjoins.elim
  | link l c s ihc ihs =>
    obtain ⟨⟨record, hl, -⟩, hc, hs⟩ := hrecords
    simp only [LinkPtr.links_link, List.nodup_cons, List.mem_append, not_or,
      List.nodup_append] at hnd
    obtain ⟨⟨hlc, hls⟩, hndc, hnds, hcs⟩ := hnd
    simp only [LinkPtr.links_link, List.mem_cons, List.mem_append, not_or] at hp
    obtain ⟨hpl, hpc, hps⟩ := hp
    rw [build_link hl]
    set h₁ := heap.setLink l (makeLink maxlimit record Rs) with hh₁
    have hbare : (buildLink maxlimit linkInfoSeq record l c Rs heap).bare = _ :=
      bare_buildLink hlc record Rs heap
    rw [← hh₁] at hbare
    set h₃ := buildLink maxlimit linkInfoSeq record l c Rs heap
    have hRsp : (h₃.bare p).Rs = Rs := by
      rw [hbare, Function.update_of_ne hpl, bare_build_of_notMem hpc, hh₁, Heap.bare_setLink,
        Function.update_of_ne hpl, hRs]
    rcases hjoins with ⟨rfl, rfl⟩ | hjoins | hjoins
    · -- the link itself: nothing writes it again
      obtain rfl := Option.some_inj.1 (hget.symm.trans hl)
      rw [bare_build_of_notMem hls, bare_build_of_notMem hps, hRsp, hbare, Function.update_self]
    · obtain ⟨hq, hi⟩ := hjoins.mem
      have hqs : q ∉ s.links := by
        rcases List.mem_cons.1 hq with rfl | hq
        · exact hls
        · exact fun hqs ↦ hcs q hq q hqs rfl
      have hil : i ≠ l := fun e ↦ hlc (e ▸ hi)
      have hRsl : (h₁.bare l).Rs = (makeLink maxlimit record Rs).Rs := by
        rw [hh₁, Heap.bare_setLink, Function.update_self]
        rfl
      rw [bare_build_of_notMem (fun his ↦ hcs i hi i his rfl), bare_build_of_notMem hqs, hbare,
        Function.update_of_ne hil, ihc hc hndc hlc hRsl hjoins]
      by_cases hql : q = l
      · rw [hql, Function.update_self, bare_build_of_notMem hlc, hRsl]
        rfl
      · rw [Function.update_of_ne hql]
    · exact ihs hs hnds hps hRsp hjoins

section HeapOf

variable {t : LinkTree ℕ}

/-- The recursion from the root makes every link of a tree of records. -/
theorem bare_heapOf (h : FormTree linkInfoSeq t) {q i : ℕ}
    (hjoins : (LinkPtr.link t.root t.child .null).Joins linkInfoSeq.length q i)
    (hget : linkInfoSeq[i]? = some linkInfo) :
    (heapOf maxlimit linkInfoSeq t).bare i =
      madeLink maxlimit i linkInfo ((heapOf maxlimit linkInfoSeq t).bare q).Rs := by
  obtain ⟨root, hroot⟩ := h.exists_linkInfo t.root_mem
  refine bare_build (h.records_root hroot) ?_ ?_ rfl hjoins hget
  · rw [LinkTree.links_link_root]
    exact t.links_nodup
  · rw [LinkTree.links_link_root, h.mem_links]
    exact lt_irrefl _

theorem bare_heapOf_root (h : FormTree linkInfoSeq t)
    (hget : linkInfoSeq[t.root]? = some linkInfo) :
    (heapOf maxlimit linkInfoSeq t).bare t.root = madeLink maxlimit t.root linkInfo 1 := by
  have hout : linkInfoSeq.length ∉ (LinkPtr.link t.root t.child .null).links := by
    rw [LinkTree.links_link_root, h.mem_links]
    exact lt_irrefl _
  rw [bare_heapOf h (.inl ⟨rfl, rfl⟩) hget, heapOf, bare_build_of_notMem hout]
  rfl

theorem bare_heapOf_child (h : FormTree linkInfoSeq t) {p c : ℕ} (hpc : t.parent c = some p)
    (hget : linkInfoSeq[c]? = some linkInfo) :
    (heapOf maxlimit linkInfoSeq t).bare c =
      madeLink maxlimit c linkInfo ((heapOf maxlimit linkInfoSeq t).bare p).Rs :=
  bare_heapOf h (.inr (.inl (t.parent_eq_some_iff.1 hpc))) hget

end HeapOf

/-! ### Sensors -/

theorem join_getElem?_append_replicate {α : Type*} (l : List (Option α)) (n i : ℕ) :
    (l ++ List.replicate n none)[i]?.join = l[i]?.join := by
  rw [List.getElem?_append]
  split_ifs with hi
  · rfl
  · rw [List.getElem?_eq_none (not_lt.1 hi), List.getElem?_replicate]
    split_ifs <;> rfl

theorem join_getElem?_modify {α : Type*} (l : List (Option α)) (i n : ℕ) (f : α → α) :
    (l.modify i (Option.map f))[n]?.join = if n = i then l[n]?.join.map f else l[n]?.join := by
  rw [List.getElem?_modify]
  rcases l[n]? with _ | x
  · split_ifs <;> rfl
  · by_cases hn : n = i
    · simp [hn]
    · simp [hn, Ne.symm hn]

omit [Field K] [CMath K] in
theorem Heap.sensor_setSensors (h : Heap K) (type : SensorType) (l : List (Option (Sensor K)))
    (type' : SensorType) (id : ℕ) : (h.setSensors type l).sensor type' id =
      if type' = type then l[id]?.join else h.sensor type' id := by
  show (Function.update h.allSensors type l type')[id]?.join = _
  split_ifs with htype
  · rw [htype, Function.update_self]
  · rw [Function.update_of_ne htype]
    rfl

omit [CMath K] in
/-- `createSensor` writes one slot, reusing the sensor that is there. -/
theorem sensor_createSensor (h : Heap K) (link : ℕ) (type : SensorType) (id : ℕ) (name : String)
    (type' : SensorType) (id' : ℕ) :
    (createSensor h link type id name).sensor type' id' =
      if type' = type ∧ id' = id then
        ((h.sensor type id).or (Sensor.create type)).map fun sensor ↦
          { sensor with id := id, link := link, name := name }
      else h.sensor type' id' := by
  set l := h.allSensors type ++ List.replicate (id + 1 - (h.allSensors type).length) none with hl
  have hold : ∀ n, l[n]?.join = h.sensor type n := join_getElem?_append_replicate _ _
  have hlt : id < l.length := by
    rw [hl, List.length_append, List.length_replicate]
    omega
  simp only [createSensor, ← hl, hold]
  rcases hsensor : (h.sensor type id).or (Sensor.create type) with _ | sensor
  · -- the slot stays empty
    have hnone := (Option.or_eq_none_iff.1 hsensor).1
    simp only [hnone, Option.elim, Option.map_none, Heap.sensor_setSensors, hold]
    split_ifs with htype hslot hslot
    · rw [hslot.2, hnone]
    · rw [htype]
    · exact absurd hslot.1 htype
    · rfl
  · have hset : ∀ (g : Heap K) (s : Sensor K), (∀ ty n, g.sensor ty n = h.sensor ty n) →
        (g.setSensors type (l.set id (some s))).sensor type' id' =
          if type' = type ∧ id' = id then some s else h.sensor type' id' := fun g s hg ↦ by
      rw [Heap.sensor_setSensors, List.getElem?_set, hg]
      split_ifs with htype hid hslot hslot hslot
      · rfl
      · exact absurd ⟨htype, hid.symm⟩ hslot
      · exact absurd hslot.2.symm hid
      · rw [hold, htype]
      · exact absurd hslot.1 htype
      · rfl
    rw [Option.map_some]
    refine hset _ _ fun ty n ↦ ?_
    have hpad : (h.setSensors type l).sensor ty n = h.sensor ty n := by
      rw [Heap.sensor_setSensors, hold]
      split_ifs with hty
      · rw [hty]
      · rfl
    rcases h.sensor type id with _ | old
    · exact hpad
    · exact hpad

/-- The sensor `s` in the slot `id` of a type is made from a record of a link. -/
structure IsMadeFrom (link : ℕ) (Rs : Matrix33 K) (sensorInfo : SensorInfo K) (type : SensorType)
    (id : ℕ) (s : Sensor K) : Prop where
  id_eq : sensorInfo.id = id
  type_eq : type = sensorTypeOf sensorInfo.type
  link_eq : s.link = link
  name_eq : s.name = sensorInfo.name
  localPos_eq : s.localPos = Rs *ᵥ sensorInfo.translation
  localR_eq : s.localR = Rs * rodrigues (axisOf sensorInfo.rotation) (sensorInfo.rotation 3)

/-- One turn of the loop over the sensors fills one slot, unless there is no id or no such type. -/
theorem sensor_createSensorOf (link : ℕ) (Rs : Matrix33 K) (h : Heap K) (sensorInfo : SensorInfo K)
    (type : SensorType) (id : ℕ) : (createSensorOf link Rs h sensorInfo).sensor type id =
      if sensorInfo.id = id ∧ type = sensorTypeOf sensorInfo.type then
        ((h.sensor type id).or (Sensor.create type)).map fun sensor ↦ placeSensor Rs sensorInfo
          { sensor with id := id, link := link, name := sensorInfo.name }
      else h.sensor type id := by
  rw [createSensorOf]
  split_ifs with hneg hslot hslot
  · have := hslot.1
    omega
  · rfl
  · obtain ⟨hid, rfl⟩ := hslot
    obtain rfl : sensorInfo.id.toNat = id := by omega
    have hslot := sensor_createSensor h link (sensorTypeOf sensorInfo.type) sensorInfo.id.toNat
      sensorInfo.name (sensorTypeOf sensorInfo.type) sensorInfo.id.toNat
    rw [if_pos ⟨rfl, rfl⟩] at hslot
    simp only [Heap.sensor_setSensors, if_true, join_getElem?_modify]
    rw [← Heap.sensor, hslot, Option.map_map]
    rfl
  · have hother := sensor_createSensor h link (sensorTypeOf sensorInfo.type) sensorInfo.id.toNat
      sensorInfo.name type id
    rw [if_neg fun hs ↦ hslot ⟨by omega, hs.1⟩] at hother
    simp only [Heap.sensor_setSensors, join_getElem?_modify]
    rw [← hother]
    split_ifs with htype hid
    · exact absurd ⟨by omega, htype⟩ hslot
    · rw [htype, Heap.sensor]
    · rfl

variable {type : SensorType} {id : ℕ}

theorem sensor_createSensorOf_eq_some {link : ℕ} {h : Heap K} {sensorInfo : SensorInfo K}
    {s : Sensor K} (hs : (createSensorOf link Rs h sensorInfo).sensor type id = some s) :
    h.sensor type id = some s ∨ IsMadeFrom link Rs sensorInfo type id s := by
  rw [sensor_createSensorOf] at hs
  split_ifs at hs with hslot
  · obtain ⟨old, -, rfl⟩ := Option.map_eq_some_iff.1 hs
    exact .inr ⟨hslot.1, hslot.2, rfl, rfl, rfl, rfl⟩
  · exact .inl hs

variable {type : SensorType}

theorem isSome_sensor_createSensorOf {link : ℕ} {h : Heap K}
    {sensorInfo : SensorInfo K}
    (hs : (h.sensor type id).isSome ∨ sensorInfo.id = id ∧
      type = sensorTypeOf sensorInfo.type ∧ type ≠ .common) :
    ((createSensorOf link Rs h sensorInfo).sensor type id).isSome := by
  rw [sensor_createSensorOf]
  split_ifs with hslot
  · rw [Option.isSome_map, Option.isSome_or, Bool.or_eq_true]
    refine hs.imp_right fun hnew ↦ ?_
    rw [Sensor.create, if_neg hnew.2.2]
    rfl
  · exact hs.resolve_right fun hnew ↦ hslot ⟨hnew.1, hnew.2.1⟩

/-- The sensors after the loop: those that were there, and those of the records. -/
theorem sensor_createSensors {link : ℕ} {l : List (SensorInfo K)} {h : Heap K}
    {s : Sensor K} (hs : (createSensors link l Rs h).sensor type id = some s) :
    h.sensor type id = some s ∨ ∃ sensorInfo ∈ l, IsMadeFrom link Rs sensorInfo type id s := by
  induction l generalizing h with
  | nil => exact .inl hs
  | cons sensorInfo l ih =>
    rw [createSensors, List.foldl_cons, ← createSensors] at hs
    rcases ih hs with hold | ⟨info, hmem, hmade⟩
    · rcases sensor_createSensorOf_eq_some hold with hold | hmade
      · exact .inl hold
      · exact .inr ⟨sensorInfo, by simp, hmade⟩
    · exact .inr ⟨info, List.mem_cons_of_mem _ hmem, hmade⟩

theorem isSome_sensor_createSensors {link : ℕ} {l : List (SensorInfo K)}
    {h : Heap K}
    (hs : (h.sensor type id).isSome ∨ ∃ sensorInfo ∈ l, sensorInfo.id = id ∧
      type = sensorTypeOf sensorInfo.type ∧ type ≠ .common) :
    ((createSensors link l Rs h).sensor type id).isSome := by
  induction l generalizing h with
  | nil => exact hs.resolve_right (by simp)
  | cons sensorInfo l ih =>
    rw [createSensors, List.foldl_cons, ← createSensors]
    rcases hs with hs | ⟨info, hmem, hnew⟩
    · exact ih (.inl (isSome_sensor_createSensorOf (.inl hs)))
    · rcases List.mem_cons.1 hmem with rfl | hmem
      · exact ih (.inl (isSome_sensor_createSensorOf (.inr hnew)))
      · exact ih (.inr ⟨info, hmem, hnew⟩)

omit [CMath K] in
theorem sensor_createLights (link : ℕ) (l : List (LightInfo K)) (h : Heap K) :
    (createLights link l h).sensor = h.sensor := by
  induction l generalizing h with
  | nil => rfl
  | cons lightInfo l ih =>
    rw [createLights, List.foldl_cons, ← createLights, ih]
    rfl

/-- Every sensor of the body is made from a record of its link, with the `Rs` of the link. -/
theorem sensor_build {z : ℤ} {heap : Heap K}
    (hrecords : Records linkInfoSeq z ptr) (hnd : ptr.links.Nodup) {s : Sensor K}
    (hs : (build maxlimit linkInfoSeq ptr Rs heap).sensor type id = some s) :
    heap.sensor type id = some s ∨ ∃ i ∈ ptr.links, ∃ linkInfo, linkInfoSeq[i]? = some linkInfo ∧
      ∃ sensorInfo ∈ linkInfo.sensors, IsMadeFrom i
        ((build maxlimit linkInfoSeq ptr Rs heap).bare i).Rs sensorInfo type id s := by
  induction ptr generalizing z Rs heap with
  | null => exact .inl hs
  | link l c s' ihc ihs =>
    obtain ⟨⟨record, hl, -⟩, hc, hs'⟩ := hrecords
    simp only [LinkPtr.links_link, List.nodup_cons, List.mem_append, not_or,
      List.nodup_append] at hnd
    obtain ⟨⟨hlc, hls⟩, hndc, hnds, hcs⟩ := hnd
    rw [build_link hl] at hs ⊢
    have hbare : ∀ i, i ∉ s'.links → (build maxlimit linkInfoSeq s' Rs
        (buildLink maxlimit linkInfoSeq record l c Rs heap)).bare i = _ := fun i hi ↦
      (bare_build_of_notMem hi Rs _).trans (congrFun (bare_buildLink hlc record Rs heap) i)
    rcases ihs hs' hnds hs with hold | ⟨i, hi, hmade⟩
    · rw [buildLink] at hold
      simp only [sensor_createLights] at hold
      rcases sensor_createSensors hold with hold | ⟨info, hmem, hmade⟩
      · rcases ihc hc hndc hold with hold | ⟨i, hi, linkInfo, hget, info, hmem, hmade⟩
        · exact .inl hold
        · -- a sensor of a link below
          have hil : i ≠ l := fun e ↦ hlc (e ▸ hi)
          refine .inr ⟨i, by simp [hi], linkInfo, hget, info, hmem, ?_⟩
          rw [hbare i fun his ↦ hcs i hi i his rfl, Function.update_of_ne hil]
          exact hmade
      · -- a sensor of the link itself
        refine .inr ⟨l, by simp, record, hl, info, hmem, ?_⟩
        rw [hbare l hls, Function.update_self]
        exact hmade
    · exact .inr ⟨i, by simp [hi], hmade⟩

/-- A record with an id and a known type has a sensor. -/
theorem isSome_sensor_build {z : ℤ} {heap : Heap K}
    (hrecords : Records linkInfoSeq z ptr)
    (hs : (heap.sensor type id).isSome ∨ ∃ i ∈ ptr.links,
      ∃ linkInfo, linkInfoSeq[i]? = some linkInfo ∧ ∃ sensorInfo ∈ linkInfo.sensors,
        sensorInfo.id = id ∧ type = sensorTypeOf sensorInfo.type ∧ type ≠ .common) :
    ((build maxlimit linkInfoSeq ptr Rs heap).sensor type id).isSome := by
  induction ptr generalizing z Rs heap with
  | null => exact hs.resolve_right (by simp)
  | link l c s ihc ihs =>
    obtain ⟨⟨record, hl, -⟩, hc, hs'⟩ := hrecords
    rw [build_link hl]
    refine ihs hs' ?_
    rw [buildLink, sensor_createLights]
    rcases hs with hold | ⟨i, hi, linkInfo, hget, hnew⟩
    · exact .inl (isSome_sensor_createSensors (.inl (ihc hc (.inl hold))))
    · rw [LinkPtr.links_link, List.mem_cons, List.mem_append] at hi
      rcases hi with rfl | hi | hi
      · obtain rfl := Option.some_inj.1 (hget.symm.trans hl)
        exact .inl (isSome_sensor_createSensors (.inr hnew))
      · exact .inl
          (isSome_sensor_createSensors (.inl (ihc hc (.inr ⟨i, hi, linkInfo, hget, hnew⟩))))
      · exact .inr ⟨i, hi, linkInfo, hget, hnew⟩

end OpenHRP.ModelLoader
