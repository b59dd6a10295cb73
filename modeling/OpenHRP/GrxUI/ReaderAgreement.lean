import OpenHRP.GrxUI.PreparedGraphs

/-!
# The agreement of the graph readers

The prepared reader reads the numbers of all objects into the arrays of the last one. The two
readers agree where there is nothing to read, or where all items are of one object
(`readersAgree`).
-/

namespace OpenHRP.LogManager

open Stateful

variable {ι D : Type}

/-- A log that is open for reading, and whose files have the records that their headers say. -/
structure HoldsLogs (m : LogManager) : Prop where
  readFile : m.readFile = true
  records : ∀ h ∈ m.header, ∃ file, m.disk (m.getTempFilePath h.objectName) = some file ∧
    HoldsRecords h file

/-- A data model names a number that the log has. -/
def IsKnown (m : LogManager) (model : DataModel ι) : Prop :=
  (slotOf m model).ind ≠ none

/-- The log does not have the object of an item. -/
def LacksObject (m : LogManager) (models : List (DataModel ι)) : Prop :=
  ∃ model ∈ models, m.headerOf model.dataItem.objectName = none

/-- All items are of one object; and where the first record is not one of the log, the log has all
their numbers. -/
def ReadsOneObject (m : LogManager) (recNo : ℤ) (models : List (DataModel ι)) : Prop :=
  ∃ obj, (∀ model ∈ models, model.dataItem.objectName = obj) ∧
    ∀ h, m.headerOf obj = some h → ¬Outside h recNo ∨ ∀ model ∈ models, IsKnown m model

/-- The readers leave the same numbers in all arrays, whatever these hold before. -/
def ReadersAgree (F D : Type) [JavaFloat F] [JavaDouble D] [JavaCasts F D] [DecidableEq ι]
    (m : LogManager) (filePointer : JString → ℤ) (keySet : List JString → List JString)
    (g : GraphFields ι) (origin offset count : ℤ) (models : List (DataModel ι)) : Prop :=
  ∀ s : Arrays ι D, (runOn (getData F m filePointer origin offset count models) s).2 =
    (runOn (initAndGetData F m keySet g origin offset count models) s).2

variable {m : LogManager} {offset recNo count : ℤ} {models : List (DataModel ι)} {obj : JString}
  {h : LogHeader}

theorem HoldsLogs.exists_file (hlog : HoldsLogs m) (hobj : m.headerOf obj = some h) :
    ∃ file, (m.disk (m.getTempFilePath obj)).getD [] = file ∧ HoldsRecords h file := by
  have hname : h.objectName = obj := by simpa using List.find?_some hobj
  obtain ⟨file, hfile, hh⟩ := hlog.records h (List.mem_of_find?_eq_some hobj)
  rw [hname] at hfile
  exact ⟨file, by rw [hfile, Option.getD_some], hh⟩

theorem lt_of_slotOf (hobj : m.headerOf obj = some h) {model : DataModel ι}
    (hmodel : model.dataItem.objectName = obj) {i : ℕ} (hi : (slotOf m model).ind = some i) :
    i < h.names.length := by
  have hmap : m.indexMapOf obj = some h.indexMap := by rw [indexMapOf, hobj, Option.map_some]
  rw [slotOf, hmodel, hmap] at hi
  exact lt_of_indexMap hi

theorem IsKnown.exists_header {model : DataModel ι} (hknown : IsKnown m model) :
    ∃ h, m.headerOf model.dataItem.objectName = some h := by
  refine Option.ne_none_iff_exists'.1 fun hnone ↦ hknown ?_
  rw [slotOf, indexMapOf, hnone]
  rfl

theorem indexMapOf_ne_none (hobj : m.headerOf obj = some h) : m.indexMapOf obj ≠ none := by
  rw [indexMapOf, hobj, Option.map_some]
  nofun

theorem header_ne_nil (hobj : m.headerOf obj = some h) : m.header ≠ [] := by
  intro hnil
  rw [headerOf, hnil, List.find?_nil] at hobj
  nomatch hobj

variable [JavaDouble D] {F : Type} [JavaFloat F] [JavaCasts F D] [DecidableEq ι]
  {filePointer : JString → ℤ} {keySet : List JString → List JString} {g : GraphFields ι}
  {origin : ℤ}

/-! ### Where the readers agree -/

/-- `getData` reads an object from where its first record begins. -/
theorem exists_readObject_eq (hlog : HoldsLogs m) (hobj : m.headerOf obj = some h)
    (filePointer : JString → ℤ) (recNo : ℤ) (items : List (Slot ι × ℤ)) :
    ∃ file pointer, (m.disk (m.getTempFilePath obj)).getD [] = file ∧ HoldsRecords h file ∧
      PointsAt h count.toNat pointer recNo ∧
        (readObject F m filePointer recNo count obj items : Stateful _ (Arrays ι D) _) =
          catching LogException.isIO (recordLoop (readRecord F h file) (items.map Prod.fst)
            count.toNat pointer recNo (items.map Prod.snd)) := by
  obtain ⟨file, hfile, hh⟩ := hlog.exists_file hobj
  obtain ⟨pointer, hseek, hp⟩ := pointsAt_seekRecord hh (filePointer obj) recNo count.toNat
  have hitems := hh.itemsPerRec
  refine ⟨file, pointer, hfile, hh, hp, ?_⟩
  rw [readObject, hobj]
  dsimp only
  rw [if_neg (by omega), hfile, hseek, lift_ok_bind]

/-- For the data models of one object the readers do the same. -/
theorem readObject_eq_getObjectData (hlog : HoldsLogs m) (hobj : m.headerOf obj = some h)
    (hmodels : ∀ model ∈ models, model.dataItem.objectName = obj) (hcount : count < 2 ^ 31)
    (hread : ¬Outside h (toLong recNo) ∨ ∀ model ∈ models, IsKnown m model) :
    (readObject F m filePointer (toLong recNo) count obj
        (models.map fun model ↦ (slotOf m model, startPos offset model)) :
          Stateful _ (Arrays ι D) _) =
      getObjectData F m (toLong recNo) count obj (models.map (slotOf m))
        (models.map (startPos offset)) := by
  obtain ⟨file, pointer, hfile, hh, hp, heq⟩ := exists_readObject_eq (F := F) (D := D) hlog hobj
    filePointer (toLong recNo) (models.map fun model ↦ (slotOf m model, startPos offset model))
  have hitems := hh.itemsPerRec
  have hslots (slot) (hslot : slot ∈ models.map (slotOf m)) (i) (hi : slot.ind = some i) :
      i < h.names.length := by
    obtain ⟨model, hmodel, rfl⟩ := List.mem_map.1 hslot
    exact lt_of_slotOf hobj (hmodels model hmodel) hi
  have hlength : (models.map (slotOf m)).length = (models.map (startPos offset)).length := by
    rw [List.length_map, List.length_map]
  have hread' : ¬Outside h (toLong recNo) ∨ ∀ slot ∈ models.map (slotOf m), slot.ind ≠ none :=
    hread.imp_right List.forall_mem_map.2
  rw [heq, getObjectData, hobj]
  dsimp only
  rw [if_neg (by omega), hlog.readFile, if_neg (by decide), hfile, List.map_map, List.map_map]
  refine congrArg (catching _) (funext fun s ↦ ?_)
  exact recordLoop_readRecord hh hslots count.toNat (by omega) (isLong_toLong recNo) hp hlength
    hread' s

/-- Without a header nothing is read. -/
theorem keeps_getPreparedData_of_nil (hheader : m.header = []) (c : ι × ℤ) :
    Keeps (getPreparedData F m keySet g origin offset count : Stateful _ (Arrays ι D) _) c := by
  rw [getPreparedData]
  refine Keeps.forM fun obj _ ↦ Keeps.bind (fun _ ↦ rfl) fun dataPos ↦ ?_
  have hnone : m.headerOf obj = none := by rw [headerOf, hheader, List.find?_nil]
  rw [getObjectData, hnone]
  exact fun _ ↦ rfl

theorem keeps_getData_of_count (hcount : count ≤ 0) (c : ι × ℤ) :
    Keeps (getData F m filePointer origin offset count models : Stateful _ (Arrays ι D) _) c := by
  rw [getData]
  split
  · exact fun _ ↦ rfl
  · exact Keeps.bind (fun _ ↦ rfl) fun lists ↦ Keeps.forM fun x _ ↦
      keeps_readObject_of_count hcount x.2

theorem keeps_initAndGetData_of_count (hcount : count ≤ 0) (c : ι × ℤ) :
    Keeps (initAndGetData F m keySet g origin offset count models :
      Stateful _ (Arrays ι D) _) c := by
  rw [initAndGetData]
  refine Keeps.bind (fun _ ↦ rfl) fun g ↦ ?_
  rw [getPreparedData]
  exact Keeps.forM fun obj _ ↦ Keeps.bind (fun _ ↦ rfl) fun dataPos ↦
    keeps_getObjectData_of_count hcount _ dataPos

/-- Where an object is missing, the readers throw before they read. -/
theorem keeps_getData_of_lacks (hlacks : LacksObject m models) (c : ι × ℤ) :
    Keeps (getData F m filePointer origin offset count models : Stateful _ (Arrays ι D) _) c := by
  obtain ⟨model, hmodel, hheader⟩ := hlacks
  obtain ⟨e, herror⟩ : ∃ e, models.foldlM (addDataModel m offset) [] = .error e :=
    exists_foldlM_eq_error (fun lists ↦ by rw [addDataModel, indexMapOf, hheader]; rfl) [] hmodel
  rw [getData, herror]
  split <;> exact fun _ ↦ rfl

theorem keeps_initAndGetData_of_lacks (hlacks : LacksObject m models) (c : ι × ℤ) :
    Keeps (initAndGetData F m keySet g origin offset count models :
      Stateful _ (Arrays ι D) _) c := by
  by_cases hnil : m.header = []
  · have hinit : initGetData m keySet g models = .ok g := if_pos hnil
    rw [initAndGetData, hinit, lift_ok_bind]
    exact keeps_getPreparedData_of_nil hnil c
  · obtain ⟨model, hmodel, hheader⟩ := hlacks
    obtain ⟨e, herror⟩ : ∃ e, models.foldlM (addPrepared m) [] = .error e :=
      exists_foldlM_eq_error (fun lists ↦ by rw [addPrepared, indexMapOf, hheader]; rfl) [] hmodel
    have hinit : initGetData m keySet g models = .error e := by
      rw [initGetData, if_neg hnil, herror]
      rfl
    rw [initAndGetData, hinit, lift_error_bind]
    exact fun _ ↦ rfl

/-- Without data models nothing is read. -/
theorem keeps_initAndGetData_nil (hkeys : ∀ objs, (keySet objs).Perm objs) (c : ι × ℤ) :
    Keeps (initAndGetData F m keySet g origin offset count [] : Stateful _ (Arrays ι D) _) c := by
  by_cases hheader : m.header = []
  · have hinit : initGetData m keySet g [] = .ok g := if_pos hheader
    rw [initAndGetData, hinit, lift_ok_bind]
    exact keeps_getPreparedData_of_nil hheader c
  · have hkeySet : keySet [] = [] := List.perm_nil.1 (hkeys [])
    rw [initAndGetData_eq hheader (fun _ h ↦ absurd h List.not_mem_nil)
      (fun _ h ↦ absurd h List.not_mem_nil), getPreparedData, (preparedFields_spec keySet g _).1]
    show Keeps ((keySet []).forM _) c
    rw [hkeySet]
    exact fun _ ↦ rfl

theorem readersAgree_of_keeps
    (hplain : ∀ c, Keeps (getData F m filePointer origin offset count models :
      Stateful _ (Arrays ι D) _) c)
    (hprepared : ∀ c, Keeps (initAndGetData F m keySet g origin offset count models :
      Stateful _ (Arrays ι D) _) c) :
    ReadersAgree F D m filePointer keySet g origin offset count models := fun s ↦
  (runOn_snd_of_keeps hplain s).trans (runOn_snd_of_keeps hprepared s).symm

/-- The data models of one object that the log has. -/
theorem getData_eq_readObject (hlog : HoldsLogs m) (hobj : m.headerOf obj = some h)
    (hmodels : ∀ model ∈ models, model.dataItem.objectName = obj) (hne : models ≠ []) :
    (getData F m filePointer origin offset count models : Stateful _ (Arrays ι D) _) =
      readObject F m filePointer (toLong (origin + offset)) count obj
        (models.map fun model ↦ (slotOf m model, startPos offset model)) := by
  have hmap : ∀ model ∈ models, m.indexMapOf model.dataItem.objectName ≠ none :=
    fun model hmodel ↦ by
      rw [hmodels model hmodel]
      exact indexMapOf_ne_none hobj
  rw [getData_eq hlog.readFile hmap, grouped_of_forall (k := obj), List.map_map, forM_singleton]
  · rfl
  · exact List.forall_mem_map.2 hmodels
  · exact fun hnil ↦ hne (List.map_eq_nil_iff.1 hnil)

theorem initAndGetData_eq_getObjectData (hkeys : ∀ objs, (keySet objs).Perm objs)
    (hattitude : ∀ model ∈ models, model.dataItem.attr ≠ "attitude".toList)
    (hobj : m.headerOf obj = some h) (hmodels : ∀ model ∈ models, model.dataItem.objectName = obj)
    (hne : models ≠ []) :
    (initAndGetData F m keySet g origin offset count models : Stateful _ (Arrays ι D) _) =
      getObjectData F m (toLong (origin + offset)) count obj (models.map (slotOf m))
        (models.map (startPos offset)) := by
  have hmap : ∀ model ∈ models, m.indexMapOf model.dataItem.objectName ≠ none :=
    fun model hmodel ↦ by
      rw [hmodels model hmodel]
      exact indexMapOf_ne_none hobj
  rw [initAndGetData_eq (header_ne_nil hobj) hmap hattitude,
    getPreparedData_of_forall hkeys hmodels hne]

theorem readersAgree_of_readsOneObject (hlog : HoldsLogs m)
    (hkeys : ∀ objs, (keySet objs).Perm objs)
    (hattitude : ∀ model ∈ models, model.dataItem.attr ≠ "attitude".toList)
    (hcount : count < 2 ^ 31) (hone : ReadsOneObject m (toLong (origin + offset)) models) :
    ReadersAgree F D m filePointer keySet g origin offset count models := by
  obtain ⟨obj, hmodels, hread⟩ := hone
  rcases eq_or_ne models [] with rfl | hne
  · refine readersAgree_of_keeps (fun c ↦ ?_) (keeps_initAndGetData_nil hkeys)
    rw [getData]
    split <;> exact fun _ ↦ rfl
  rcases hobj : m.headerOf obj with _ | h
  · have hlacks : LacksObject m models := by
      obtain ⟨model, hmodel⟩ := List.exists_mem_of_ne_nil models hne
      exact ⟨model, hmodel, by rw [hmodels model hmodel, hobj]⟩
    exact readersAgree_of_keeps (keeps_getData_of_lacks hlacks)
      (keeps_initAndGetData_of_lacks hlacks)
  · intro s
    rw [getData_eq_readObject hlog hobj hmodels hne,
      initAndGetData_eq_getObjectData hkeys hattitude hobj hmodels hne,
      readObject_eq_getObjectData hlog hobj hmodels hcount (hread h hobj)]

/-! ### Where the readers do not agree -/

/-- Items with numbers that the log has, and with places in their arrays. -/
def AreRead (h : LogHeader) (items : List (Slot ι × ℤ)) : Prop :=
  ∀ x ∈ items, (∃ i < h.names.length, x.1.ind = some i) ∧ 0 ≤ x.2 ∧ x.2 < x.1.size

section Items

variable {items : List (Slot ι × ℤ)}

section

omit [DecidableEq ι]

theorem AreRead.inRing (hitems : AreRead h items) :
    InRing (items.map Prod.fst) (items.map Prod.snd) :=
  inRing_map fun x hx ↦ (hitems x hx).2

theorem AreRead.exists_ind (hitems : AreRead h items) :
    ∀ slot ∈ items.map Prod.fst, ∃ i < h.names.length, slot.ind = some i :=
  List.forall_mem_map.2 fun x hx ↦ (hitems x hx).1

end

theorem completes_readObject (hlog : HoldsLogs m) (hobj : m.headerOf obj = some h)
    (hitems : AreRead h items) (hcount : count < 2 ^ 31) :
    Completes (readObject F m filePointer (toLong recNo) count obj items :
      Stateful _ (Arrays ι D) _) ⟨⟩ := by
  obtain ⟨file, pointer, -, hh, hp, heq⟩ := exists_readObject_eq (F := F) (D := D) hlog hobj
    filePointer (toLong recNo) items
  rw [heq]
  exact (completes_recordLoop hh hitems.exists_ind count.toNat (by omega) (isLong_toLong recNo) hp
    hitems.inRing).catching _

/-- The plain reader writes every item of an object. -/
theorem overwrites_readObject (hlog : HoldsLogs m) (hobj : m.headerOf obj = some h)
    (hitems : AreRead h items) (hcount : count < 2 ^ 31) (hpos : 0 < count) {x : Slot ι × ℤ}
    (hx : x ∈ items) :
    Overwrites (readObject F m filePointer (toLong recNo) count obj items :
      Stateful _ (Arrays ι D) _) (x.1.data, x.2) := by
  obtain ⟨file, pointer, -, hh, hp, heq⟩ := exists_readObject_eq (F := F) (D := D) hlog hobj
    filePointer (toLong recNo) items
  obtain ⟨k, hk⟩ := Nat.exists_eq_add_one.2 (by omega : 0 < count.toNat)
  rw [hk] at hp heq
  obtain ⟨value, pointer', hread, -, hok, -⟩ :=
    hp.exists_readRecord (F := F) (D := D) hh (isLong_toLong recNo) (by omega)
  have hmem : (x.1, x.2) ∈ (items.map Prod.fst).zip (items.map Prod.snd) := by
    rw [List.zip_map']
    exact List.mem_map_of_mem hx
  rw [heq]
  refine (overwrites_recordLoop hread hitems.inRing (fun slot hslot ↦ ?_) hmem k).catching _
  obtain ⟨i, hi, hind⟩ := hitems.exists_ind slot hslot
  rw [hind]
  exact hok i hi

end Items

/-- The prepared reader writes every item of an object outside the log. -/
theorem overwrites_getObjectData (hlog : HoldsLogs m) (hobj : m.headerOf obj = some h)
    {slots : List (Slot ι)} {dataPos : List ℤ} (hring : InRing slots dataPos)
    (hout : Outside h recNo) (hpos : 0 < count) {slot : Slot ι} {pos : ℤ}
    (hmem : (slot, pos) ∈ slots.zip dataPos) :
    Overwrites (getObjectData F m recNo count obj slots dataPos : Stateful _ (Arrays ι D) _)
      (slot.data, pos) := by
  obtain ⟨file, hfile, hh⟩ := hlog.exists_file hobj
  have hitems := hh.itemsPerRec
  obtain ⟨k, hk⟩ := Nat.exists_eq_add_one.2 (by omega : 0 < count.toNat)
  rw [getObjectData, hobj]
  dsimp only
  rw [if_neg (by omega), hlog.readFile, if_neg (by decide), hfile, hk]
  exact (overwrites_recordLoop rfl hring (fun slot _ ↦ ⟨_, readNumber_of_outside hout _⟩) hmem
    k).catching _

/-- The array positions fit, and the log has the numbers of all items unless these are of one
object. -/
structure Regular (m : LogManager) (offset : ℤ) (models : List (DataModel ι)) : Prop where
  fits : ∀ model ∈ models, IsInt (model.dataSeries.headPos + offset)
  known : (∀ model ∈ models, IsKnown m model) ∨
    ∃ obj, ∀ model ∈ models, model.dataItem.objectName = obj

variable {model : DataModel ι}

omit [DecidableEq ι] in
theorem startPos_bounds (hoffset : 0 ≤ offset) (hfits : IsInt (model.dataSeries.headPos + offset)) :
    0 ≤ startPos offset model ∧ startPos offset model < model.dataSeries.size := by
  have hhead := model.dataSeries.headPos_nonneg
  have hlt := model.dataSeries.headPos_lt
  rw [startPos, toInt_of_isInt hfits]
  exact ⟨Int.tmod_nonneg _ (by omega), Int.tmod_lt_of_pos _ (by omega)⟩

/-- With several objects the plain reader writes an item that is not of the last object. -/
theorem overwrites_getData (hlog : HoldsLogs m) (hoffset : 0 ≤ offset)
    (hfits : ∀ model ∈ models, IsInt (model.dataSeries.headPos + offset))
    (hknown : ∀ model ∈ models, IsKnown m model) (hcount : count < 2 ^ 31) (hpos : 0 < count)
    (hmodel : model ∈ models) :
    Overwrites (getData F m filePointer origin offset count models : Stateful _ (Arrays ι D) _)
      (model.dataSeries.data, startPos offset model) := by
  have hmap : ∀ model ∈ models, m.indexMapOf model.dataItem.objectName ≠ none :=
    fun model hmodel ↦ by
      obtain ⟨h, hobj⟩ := (hknown model hmodel).exists_header
      exact indexMapOf_ne_none hobj
  have hread (obj) (items) (hitems : (obj, items) ∈ grouped (models.map fun model ↦
      (model.dataItem.objectName, (slotOf m model, startPos offset model)))) :
      ∃ h, m.headerOf obj = some h ∧ AreRead h items := by
    have hof (x) (hx : x ∈ items) : ∃ model ∈ models, model.dataItem.objectName = obj ∧
        (slotOf m model, startPos offset model) = x := by
      obtain ⟨model, hmodel, heq⟩ := List.mem_map.1 (mem_of_mem_grouped hitems hx)
      exact ⟨model, hmodel, (Prod.mk.inj heq).1, (Prod.mk.inj heq).2⟩
    obtain ⟨x, hx⟩ := List.exists_mem_of_ne_nil items (ne_nil_of_mem_grouped hitems)
    obtain ⟨model, hmodel, rfl, -⟩ := hof x hx
    obtain ⟨h, hobj⟩ := (hknown model hmodel).exists_header
    refine ⟨h, hobj, fun x hx ↦ ?_⟩
    obtain ⟨model', hmodel', hname, rfl⟩ := hof x hx
    obtain ⟨i, hi⟩ := Option.ne_none_iff_exists'.1 (hknown model' hmodel')
    exact ⟨⟨i, lt_of_slotOf hobj hname hi, hi⟩, startPos_bounds hoffset (hfits model' hmodel')⟩
  rw [getData_eq hlog.readFile hmap]
  obtain ⟨items, hitems, hmem⟩ := exists_mem_grouped
    (List.mem_map_of_mem (f := fun model ↦
      (model.dataItem.objectName, (slotOf m model, startPos offset model))) hmodel)
  refine Overwrites.forM (fun _ ↦ blind_readObject F m _ _ _ _ _) (fun x hx ↦ ?_)
    ⟨_, hitems, ?_⟩
  · obtain ⟨h, hobj, hread⟩ := hread x.1 x.2 hx
    exact completes_readObject hlog hobj hread hcount
  · obtain ⟨h, hobj, hread⟩ := hread _ _ hitems
    exact overwrites_readObject hlog hobj hread hcount hpos hmem

/-- The prepared reader writes the arrays of the last object only. -/
theorem exists_keeps_initAndGetData (hkeys : ∀ objs, (keySet objs).Perm objs)
    (hdistinct : (models.map fun model ↦ model.dataSeries.data).Nodup)
    (hattitude : ∀ model ∈ models, model.dataItem.attr ≠ "attitude".toList)
    (hmap : ∀ model ∈ models, m.indexMapOf model.dataItem.objectName ≠ none)
    (hheader : m.header ≠ []) (hne : models ≠ []) :
    ∃ obj, ∀ model ∈ models, model.dataItem.objectName ≠ obj → ∀ pos,
      Keeps (initAndGetData F m keySet g origin offset count models : Stateful _ (Arrays ι D) _)
        (model.dataSeries.data, pos) := by
  obtain ⟨hlists, hlast⟩ := preparedFields_spec keySet g (preparedLists m models)
  have hkeySet := hkeys ((preparedLists m models).map Prod.fst)
  obtain ⟨model₀, hmodel₀⟩ := List.exists_mem_of_ne_nil models hne
  obtain ⟨l₀, hl₀, -⟩ := exists_mem_grouped (List.mem_map_of_mem (f := fun model ↦
    (model.dataItem.objectName, (model.dataSeries, (slotOf m model).ind))) hmodel₀)
  have hkeys_ne : keySet ((preparedLists m models).map Prod.fst) ≠ [] :=
    List.ne_nil_of_mem (hkeySet.mem_iff.2 (List.mem_map_of_mem hl₀))
  obtain ⟨obj, hobj⟩ : ∃ obj, (keySet _).getLast? = some obj :=
    ⟨_, List.getLast?_eq_some_getLast hkeys_ne⟩
  refine ⟨obj, fun model hmodel hmodel_ne pos ↦ ?_⟩
  obtain ⟨hdata, -⟩ := hlast obj hobj
  obtain ⟨⟨_, l⟩, hl, rfl⟩ := List.mem_map.1 (hkeySet.mem_iff.1 (List.mem_of_getLast? hobj))
  rw [listOf_of_mem (by rw [hlists]; exact nodup_grouped _) (by rw [hlists]; exact hl)] at hdata
  rw [initAndGetData_eq hheader hmap hattitude, getPreparedData]
  refine Keeps.forM fun obj' _ ↦ Keeps.bind (fun _ ↦ rfl) fun dataPos ↦
    keeps_getObjectData (fun slot hslot heq ↦ ?_) dataPos
  obtain ⟨x, hx, rfl⟩ := List.mem_map.1 hslot
  have hmem := (List.of_mem_zip hx).1
  rw [hdata] at hmem
  obtain ⟨y, hy, hyx⟩ := List.mem_map.1 hmem
  obtain ⟨model', hmodel', hpair⟩ := List.mem_map.1 (mem_of_mem_grouped hl hy)
  obtain ⟨hname, rfl⟩ := Prod.mk.inj hpair
  obtain rfl : model' = model :=
    List.inj_on_of_nodup_map hdistinct hmodel' hmodel (hyx.trans heq)
  exact hmodel_ne hname

/-- The prepared reader writes an item that is outside the log and that the plain one does not
read. -/
theorem not_readersAgree_of_outside [Nontrivial D] (hlog : HoldsLogs m)
    (hkeys : ∀ objs, (keySet objs).Perm objs)
    (hdistinct : (models.map fun model ↦ model.dataSeries.data).Nodup)
    (hattitude : ∀ model ∈ models, model.dataItem.attr ≠ "attitude".toList) (hoffset : 0 ≤ offset)
    (hfits : ∀ model ∈ models, IsInt (model.dataSeries.headPos + offset)) (hpos : 0 < count)
    (hobj : m.headerOf obj = some h) (hmodels : ∀ model ∈ models, model.dataItem.objectName = obj)
    (hout : Outside h (toLong (origin + offset))) (hmodel : model ∈ models)
    (hunknown : ¬IsKnown m model) :
    ¬ReadersAgree F D m filePointer keySet g origin offset count models := by
  have hne : models ≠ [] := List.ne_nil_of_mem hmodel
  have hring : InRing (models.map (slotOf m)) (models.map (startPos offset)) :=
    inRing_map fun model hmodel ↦ startPos_bounds hoffset (hfits model hmodel)
  have hmem : (slotOf m model, startPos offset model) ∈
      (models.map (slotOf m)).zip (models.map (startPos offset)) := by
    rw [List.zip_map']
    exact List.mem_map_of_mem hmodel
  have hprepared : Overwrites (initAndGetData F m keySet g origin offset count models :
      Stateful _ (Arrays ι D) _) (model.dataSeries.data, startPos offset model) := by
    rw [initAndGetData_eq_getObjectData hkeys hattitude hobj hmodels hne]
    exact overwrites_getObjectData hlog hobj hring hout hpos hmem
  have hplain : Keeps (getData F m filePointer origin offset count models :
      Stateful _ (Arrays ι D) _) (model.dataSeries.data, startPos offset model) := by
    rw [getData_eq_readObject hlog hobj hmodels hne]
    refine keeps_readObject (List.forall_mem_map.2 fun model' hmodel' heq ↦ ?_)
    obtain rfl : model' = model := List.inj_on_of_nodup_map hdistinct hmodel' hmodel heq
    exact not_not.1 hunknown
  obtain ⟨s, hs⟩ := exists_ne_of_overwrites hprepared hplain
  exact fun hagree ↦ hs (hagree s).symm

/-- With several objects the plain reader writes an item that the prepared one does not read. -/
theorem not_readersAgree_of_objects [Nontrivial D] (hlog : HoldsLogs m)
    (hkeys : ∀ objs, (keySet objs).Perm objs)
    (hdistinct : (models.map fun model ↦ model.dataSeries.data).Nodup)
    (hattitude : ∀ model ∈ models, model.dataItem.attr ≠ "attitude".toList)
    (hoffset : 0 ≤ offset) (hfits : ∀ model ∈ models, IsInt (model.dataSeries.headPos + offset))
    (hcount : count < 2 ^ 31) (hpos : 0 < count) (hknown : ∀ model ∈ models, IsKnown m model)
    (hseveral : ¬∃ obj, ∀ model ∈ models, model.dataItem.objectName = obj) :
    ¬ReadersAgree F D m filePointer keySet g origin offset count models := by
  have hne : models ≠ [] := fun hnil ↦ hseveral ⟨[], by
    rw [hnil]
    exact List.forall_mem_nil _⟩
  have hmap (model) (hmodel : model ∈ models) :
      m.indexMapOf model.dataItem.objectName ≠ none := by
    obtain ⟨h, hobj⟩ := (hknown model hmodel).exists_header
    exact indexMapOf_ne_none hobj
  obtain ⟨model₀, hmodel₀⟩ := List.exists_mem_of_ne_nil models hne
  obtain ⟨h₀, hobj₀⟩ := (hknown model₀ hmodel₀).exists_header
  obtain ⟨obj, hkeeps⟩ : ∃ obj, ∀ model ∈ models, model.dataItem.objectName ≠ obj → ∀ pos,
      Keeps (initAndGetData F m keySet g origin offset count models : Stateful _ (Arrays ι D) _)
        (model.dataSeries.data, pos) :=
    exists_keeps_initAndGetData hkeys hdistinct hattitude hmap (header_ne_nil hobj₀) hne
  obtain ⟨model, hmodel, hmodel_ne⟩ : ∃ model ∈ models, model.dataItem.objectName ≠ obj := by
    by_contra! hall
    exact hseveral ⟨obj, hall⟩
  have hplain : Overwrites (getData F m filePointer origin offset count models :
      Stateful _ (Arrays ι D) _) (model.dataSeries.data, startPos offset model) :=
    overwrites_getData hlog hoffset hfits hknown hcount hpos hmodel
  obtain ⟨s, hs⟩ := exists_ne_of_overwrites hplain
    (hkeeps model hmodel hmodel_ne (startPos offset model))
  exact fun hagree ↦ hs (hagree s)

/-- The plain reader and the prepared one agree where there are no records to read, where the log
does not have an object, and where all items are of one object. -/
theorem readersAgree [Nontrivial D] (hlog : HoldsLogs m) (hkeys : ∀ objs, (keySet objs).Perm objs)
    (hdistinct : (models.map fun model ↦ model.dataSeries.data).Nodup)
    (hattitude : ∀ model ∈ models, model.dataItem.attr ≠ "attitude".toList)
    (hoffset : 0 ≤ offset) (hcount : count < 2 ^ 31) :
    (count ≤ 0 ∨ LacksObject m models ∨ ReadsOneObject m (toLong (origin + offset)) models →
      ReadersAgree F D m filePointer keySet g origin offset count models) ∧
    (Regular m offset models →
      ReadersAgree F D m filePointer keySet g origin offset count models →
        count ≤ 0 ∨ LacksObject m models ∨
          ReadsOneObject m (toLong (origin + offset)) models) := by
  constructor
  · rintro (hnone | hlacks | hone)
    · exact readersAgree_of_keeps (keeps_getData_of_count hnone)
        (keeps_initAndGetData_of_count hnone)
    · exact readersAgree_of_keeps (keeps_getData_of_lacks hlacks)
        (keeps_initAndGetData_of_lacks hlacks)
    · exact readersAgree_of_readsOneObject hlog hkeys hattitude hcount hone
  · intro hregular hagree
    by_contra! hnot
    obtain ⟨hpos, hlacks, hseveral⟩ := hnot
    by_cases hone : ∃ obj, ∀ model ∈ models, model.dataItem.objectName = obj
    · obtain ⟨obj, hmodels⟩ := hone
      refine hseveral ⟨obj, hmodels, fun h hobj ↦ ?_⟩
      by_contra! hnot
      obtain ⟨hout, model, hmodel, hunknown⟩ := hnot
      exact not_readersAgree_of_outside hlog hkeys hdistinct hattitude hoffset hregular.fits hpos
        hobj hmodels hout hmodel hunknown hagree
    · exact not_readersAgree_of_objects hlog hkeys hdistinct hattitude hoffset hregular.fits hcount
        hpos (hregular.known.resolve_right hone) hone hagree

/-! ### Two objects -/

/-- The header of an object with one record of one number. -/
def chartHeader (name : JString) : LogHeader where
  version := []
  headerSize := 76
  totalTime := 1000000
  startTime := 0
  endTime := 1000000
  timeStep := 1000000
  method := 0
  recordSize := 4
  numRecords := 1
  objectName := name
  dataFormat := ["n.v".toList, "float".toList]
  unitSize := [0]

/-- The log of two objects, whose numbers are 1 and 2. -/
def chartLog : LogManager :=
  let a := chartHeader "a".toList
  let b := chartHeader "b".toList
  { new (fun path ↦
      if path = "a.tmp".toList then some (a.output ++ writeFloat 0x3F800000#32)
      else if path = "b.tmp".toList then some (b.output ++ writeFloat 0x40000000#32) else none) with
    header := [a, b]
    readFile := true }

/-- The number of an object, shown at one place. -/
def chartModel (object : JString) (data : Bool) : DataModel Bool where
  dataItem := ⟨some object, "n".toList, "v".toList, -1⟩
  dataSeries := ⟨data, 1, 0, by decide, by decide, by decide⟩

def chartModels : List (DataModel Bool) :=
  [chartModel "a".toList false, chartModel "b".toList true]

theorem holdsLogs_chartLog : HoldsLogs chartLog := by
  refine ⟨rfl, fun h hh ↦ ?_⟩
  rcases List.mem_pair.1 hh with rfl | rfl
  · exact ⟨_, rfl, by decide, by decide +kernel, by decide +kernel, by decide +kernel,
      by decide +kernel, by decide +kernel⟩
  · exact ⟨_, rfl, by decide, by decide +kernel, by decide +kernel, by decide +kernel,
      by decide +kernel, by decide +kernel⟩

theorem regular_chartLog : Regular chartLog 0 chartModels where
  fits := by decide
  known := by
    refine .inl fun model hmodel ↦ ?_
    rcases List.mem_pair.1 hmodel with rfl | rfl
    · show ((slotOf chartLog (chartModel "a".toList false)).ind ≠ none)
      decide +kernel
    · show ((slotOf chartLog (chartModel "b".toList true)).ind ≠ none)
      decide +kernel

theorem not_readsOneObject_chartLog :
    ¬((1 : ℤ) ≤ 0 ∨ LacksObject chartLog chartModels ∨
      ReadsOneObject chartLog (toLong (0 + 0)) chartModels) := by
  rintro (hnone | ⟨model, hmodel, hlacks⟩ | ⟨obj, hobj, -⟩)
  · exact absurd hnone (by decide)
  · rcases List.mem_pair.1 hmodel with rfl | rfl
    · exact absurd hlacks (by decide +kernel)
    · exact absurd hlacks (by decide +kernel)
  · have ha : "a".toList = obj := hobj _ (List.mem_pair.2 (.inl rfl))
    have hb : "b".toList = obj := hobj _ (List.mem_pair.2 (.inr rfl))
    exact absurd (ha.trans hb.symm) (by decide)

theorem readersAgree_chartLog :
    ReadersAgree (BitVec 32) (BitVec 64) chartLog (fun _ ↦ 0) id ⟨[], [], []⟩ 0 0 1
        [chartModel "a".toList false] ∧
      ¬ReadersAgree (BitVec 32) (BitVec 64) chartLog (fun _ ↦ 0) id ⟨[], [], []⟩ 0 0 1
        chartModels := by
  have hkeys (objs : List JString) : (id objs).Perm objs := .refl _
  have hcount : (1 : ℤ) < 2 ^ 31 := by norm_num
  have : Nontrivial (BitVec 64) := ⟨0, 1, by decide⟩
  constructor
  · have hin : ¬Outside (chartHeader "a".toList) (toLong (0 + 0)) := by decide +kernel
    refine (readersAgree holdsLogs_chartLog hkeys (by decide) (by decide) le_rfl hcount).1
      (.inr (.inr ⟨"a".toList, fun model hmodel ↦ ?_, fun h hobj ↦ .inl ?_⟩))
    · rw [List.mem_singleton.1 hmodel]
      rfl
    · obtain rfl : chartHeader "a".toList = h := Option.some_inj.1 hobj
      exact hin
  · exact fun hagree ↦ not_readsOneObject_chartLog
      ((readersAgree holdsLogs_chartLog hkeys (by decide) (by decide) le_rfl hcount).2
        regular_chartLog hagree)

/-- The prepared reader reads the number of the first object into the array of the second one, so
that the array of the first object stays as it was. -/
theorem not_readersAgree_chartLog : HoldsLogs chartLog ∧
    ¬ReadersAgree (BitVec 32) (BitVec 64) chartLog (fun _ ↦ 0) id ⟨[], [], []⟩ 0 0 1
      chartModels := by
  refine ⟨holdsLogs_chartLog, fun hagree ↦ ?_⟩
  have hcell := congrFun (hagree fun _ ↦ NaN (BitVec 64)) (false, 0)
  have hplain : (runOn (getData (BitVec 32) chartLog (fun _ ↦ 0) 0 0 1 chartModels)
      fun _ ↦ NaN (BitVec 64)).2 (false, 0) = 0x3FF0000000000000#64 := by decide +kernel
  have hprepared : (runOn (initAndGetData (BitVec 32) chartLog id ⟨[], [], []⟩ 0 0 1 chartModels)
      fun _ ↦ NaN (BitVec 64)).2 (false, 0) = NaN (BitVec 64) := by decide +kernel
  rw [hplain, hprepared] at hcell
  exact absurd hcell (by decide +kernel)

end OpenHRP.LogManager
