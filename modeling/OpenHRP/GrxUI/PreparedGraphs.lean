import OpenHRP.GrxUI.GraphLoops

/-!
# The prepared graph reader

What the two readers read for an object, and the lists they make of the data models. The fields that
`initGetData` prepares are set anew for every object, so that `getData` finds those of the last one
(`preparedFields_spec`).
-/

namespace OpenHRP.LogManager

open Stateful

variable {ι D : Type}

/-! ### The readers -/

section Readers

variable [JavaDouble D] (F : Type) [JavaFloat F] [JavaCasts F D] [DecidableEq ι] (m : LogManager)

theorem blind_readObject (filePointer : JString → ℤ) (recNo count : ℤ) (obj : JString)
    (items : List (Slot ι × ℤ)) :
    Blind (readObject F m filePointer recNo count obj items : Stateful _ (Arrays ι D) _) := by
  rw [readObject]
  split
  · exact .throw _
  · split
    · exact .throw _
    · exact Blind.catching ((Blind.lift _).bind fun _ ↦ blind_recordLoop _ _ _ _ _) _

variable {F m} {filePointer : JString → ℤ} {recNo count : ℤ} {obj : JString} {c : ι × ℤ}

/-- Without records nothing is written. -/
theorem keeps_readObject_of_count (hcount : count ≤ 0) (items : List (Slot ι × ℤ)) :
    Keeps (readObject F m filePointer recNo count obj items : Stateful _ (Arrays ι D) _) c := by
  rw [readObject, Int.toNat_of_nonpos hcount]
  split
  · exact fun _ ↦ rfl
  · split
    · exact fun _ ↦ rfl
    · exact Keeps.bind (fun _ ↦ rfl) fun _ _ ↦ rfl

theorem keeps_getObjectData_of_count (hcount : count ≤ 0) (slots : List (Slot ι))
    (dataPos : List ℤ) :
    Keeps (getObjectData F m recNo count obj slots dataPos : Stateful _ (Arrays ι D) _) c := by
  rw [getObjectData, Int.toNat_of_nonpos hcount]
  split
  · exact fun _ ↦ rfl
  · split
    · exact fun _ ↦ rfl
    · split
      · exact fun _ ↦ rfl
      · exact fun _ ↦ rfl

/-- An array whose numbers the log does not have is kept. -/
theorem keeps_readObject {items : List (Slot ι × ℤ)}
    (h : ∀ x ∈ items, x.1.data = c.1 → x.1.ind = none) :
    Keeps (readObject F m filePointer recNo count obj items : Stateful _ (Arrays ι D) _) c := by
  rw [readObject]
  split
  · exact fun _ ↦ rfl
  · split
    · exact fun _ ↦ rfl
    · refine Keeps.bind (fun _ ↦ rfl) fun pointer ↦ keeps_recordLoop ?_ _ _ _ _
      intro place recNo place' value hread slot hslot heq
      obtain ⟨x, hx, rfl⟩ := List.mem_map.1 hslot
      refine ⟨.nullPointer, ?_⟩
      rw [h x hx heq]
      rw [readRecord] at hread
      split at hread
      · obtain ⟨-, rfl⟩ := Prod.mk.inj (Except.ok.inj hread)
        rfl
      · rcases hrun : (readMany (readFloat F) _).run (List.drop place.toNat _) with e | ⟨fs, rest⟩
        · rw [hrun] at hread
          cases hread
        · rw [hrun] at hread
          obtain ⟨-, rfl⟩ := Prod.mk.inj (Except.ok.inj hread)
          rfl

/-- An array that is not prepared is kept. -/
theorem keeps_getObjectData {slots : List (Slot ι)} (h : ∀ slot ∈ slots, slot.data ≠ c.1)
    (dataPos : List ℤ) :
    Keeps (getObjectData F m recNo count obj slots dataPos : Stateful _ (Arrays ι D) _) c := by
  rw [getObjectData]
  split
  · exact fun _ ↦ rfl
  · split
    · exact fun _ ↦ rfl
    · split
      · exact fun _ ↦ rfl
      · exact keeps_recordLoop (fun _ _ _ _ _ slot hslot heq ↦ absurd heq (h slot hslot)) _ _ _ _

end Readers

/-! ### The lists of the objects -/

section Lists

variable {m : LogManager} {offset : ℤ}

/-- What is filled for a data model, and the index of its number. -/
def slotOf (m : LogManager) (model : DataModel ι) : Slot ι where
  data := model.dataSeries.data
  size := model.dataSeries.size
  ind := (m.indexMapOf model.dataItem.objectName).bind fun indexMap ↦
    indexMap (model.dataItem.key model.dataItem.attr)

/-- Where a data model is written first. -/
def startPos (offset : ℤ) (model : DataModel ι) : ℤ :=
  (toInt (model.dataSeries.headPos + offset)).tmod model.dataSeries.size

theorem foldlM_insertGroup {α : Type} (item : DataModel ι → α)
    {f : List (JString × List α) → DataModel ι → Except LogException (List (JString × List α))}
    {models : List (DataModel ι)} (h : ∀ lists, ∀ model ∈ models,
      f lists model = .ok (insertGroup model.dataItem.objectName (item model) lists)) :
    models.foldlM f [] =
      .ok (grouped (models.map fun model ↦ (model.dataItem.objectName, item model))) := by
  induction models using List.reverseRecOn with
  | nil => rfl
  | append_singleton models model ih =>
    rw [List.foldlM_append, ih fun lists x hx ↦ h lists x (List.mem_append_left _ hx),
      List.map_append, List.map_singleton, grouped_concat]
    show f _ model >>= pure = _
    rw [h _ model (List.mem_append_right _ (.head _))]
    rfl

theorem exists_foldlM_eq_error {α β : Type} {e : LogException} {f : β → α → Except LogException β}
    {a : α} (h : ∀ b, f b a = .error e) :
    ∀ {l : List α} (b : β), a ∈ l → ∃ e, l.foldlM f b = .error e
  | a' :: l, b, ha => by
    rw [List.foldlM_cons]
    rcases hf : f b a' with e' | b'
    · exact ⟨e', rfl⟩
    · rcases List.mem_cons.1 ha with rfl | hmem
      · rw [h b] at hf
        nomatch hf
      · exact exists_foldlM_eq_error h b' hmem

/-- The lists that `initGetData` makes. -/
def preparedLists (m : LogManager) (models : List (DataModel ι)) :
    List (JString × List (DataSeries ι × Option ℕ)) :=
  grouped (models.map fun model ↦
    (model.dataItem.objectName, (model.dataSeries, (slotOf m model).ind)))

/-- The fields that `initGetData` makes. -/
def preparedFields (keySet : List JString → List JString) (g : GraphFields ι)
    (lists : List (JString × List (DataSeries ι × Option ℕ))) : GraphFields ι :=
  (keySet (lists.map Prod.fst)).foldl (fun g obj ↦
    { g with
      data := (g.listOf obj).map fun x ↦ x.1.data
      dsSize := (g.listOf obj).map fun x ↦ x.1.size }) { g with listMap := lists }

variable {keySet : List JString → List JString} {g : GraphFields ι} {models : List (DataModel ι)}
  {lists : List (JString × List (DataSeries ι × Option ℕ))}

/-- The fields are those of the last object. -/
theorem preparedFields_spec (keySet : List JString → List JString) (g : GraphFields ι)
    (lists : List (JString × List (DataSeries ι × Option ℕ))) :
    (preparedFields keySet g lists).listMap = lists ∧
      ∀ obj ∈ (keySet (lists.map Prod.fst)).getLast?,
        (preparedFields keySet g lists).data =
            ((preparedFields keySet g lists).listOf obj).map (fun x ↦ x.1.data) ∧
          (preparedFields keySet g lists).dsSize =
            ((preparedFields keySet g lists).listOf obj).map fun x ↦ x.1.size := by
  rw [preparedFields]
  induction keySet (lists.map Prod.fst) using List.reverseRecOn with
  | nil => exact ⟨rfl, nofun⟩
  | append_singleton objs obj ih =>
    rw [List.foldl_concat]
    refine ⟨ih.1, fun obj' hobj' ↦ ?_⟩
    rw [List.getLast?_concat, Option.mem_def, Option.some_inj] at hobj'
    rw [← hobj']
    exact ⟨rfl, rfl⟩

theorem listOf_of_mem {g : GraphFields ι} (hg : (g.listMap.map Prod.fst).Nodup) {obj : JString}
    {l : List (DataSeries ι × Option ℕ)} (hl : (obj, l) ∈ g.listMap) : g.listOf obj = l := by
  have hfind : g.listMap.find? (fun x ↦ x.1 = obj) = some (obj, l) := find?_key_eq_some hg hl
  rw [GraphFields.listOf, hfind]
  rfl

theorem dataPositions_map (m : LogManager) (offset : ℤ) (models : List (DataModel ι)) :
    dataPositions offset (models.map fun model ↦ (model.dataSeries, (slotOf m model).ind))
      (models.map fun model ↦ model.dataSeries.size) = .ok (models.map (startPos offset)) := by
  induction models with
  | nil => rfl
  | cons model models ih =>
    rw [List.map_cons, List.map_cons, dataPositions, ih]
    rfl

theorem preparedLists_of_forall {obj : JString} (hobj : ∀ model ∈ models,
    model.dataItem.objectName = obj) (hmodels : models ≠ []) :
    preparedLists m models =
      [(obj, models.map fun model ↦ (model.dataSeries, (slotOf m model).ind))] := by
  rw [preparedLists, grouped_of_forall (k := obj), List.map_map]
  · rfl
  · intro x hx
    obtain ⟨model, hmodel, rfl⟩ := List.mem_map.1 hx
    exact hobj model hmodel
  · exact fun h ↦ hmodels (List.map_eq_nil_iff.1 h)

section Runs

variable [JavaDouble D] {F : Type} [JavaFloat F] [JavaCasts F D] [DecidableEq ι]
  {filePointer : JString → ℤ} {origin count : ℤ}

/-- Where the log has all objects, `getData` reads one after the other. -/
theorem getData_eq (hread : m.readFile = true)
    (h : ∀ model ∈ models, m.indexMapOf model.dataItem.objectName ≠ none) :
    (getData F m filePointer origin offset count models : Stateful _ (Arrays ι D) _) =
      (grouped (models.map fun model ↦
        (model.dataItem.objectName, (slotOf m model, startPos offset model)))).forM fun x ↦
          readObject F m filePointer (toLong (origin + offset)) count x.1 x.2 := by
  have hadd : models.foldlM (addDataModel m offset) [] = _ :=
    foldlM_insertGroup (fun model ↦ (slotOf m model, startPos offset model))
      fun lists model hmodel ↦ by
        obtain ⟨indexMap, hmap⟩ := Option.ne_none_iff_exists'.1 (h model hmodel)
        rw [addDataModel, slotOf, startPos, hmap]
        rfl
  rw [getData, hread, hadd]
  exact lift_ok_bind _ _

/-- Where the log has all objects, the fields are prepared. -/
theorem initAndGetData_eq (hheader : m.header ≠ [])
    (h : ∀ model ∈ models, m.indexMapOf model.dataItem.objectName ≠ none)
    (hattitude : ∀ model ∈ models, model.dataItem.attr ≠ "attitude".toList) :
    (initAndGetData F m keySet g origin offset count models : Stateful _ (Arrays ι D) _) =
      getPreparedData F m keySet (preparedFields keySet g (preparedLists m models)) origin
        offset count := by
  have hadd : models.foldlM (addPrepared m) [] = .ok (preparedLists m models) :=
    foldlM_insertGroup (fun model ↦ (model.dataSeries, (slotOf m model).ind))
      fun lists model hmodel ↦ by
        obtain ⟨indexMap, hmap⟩ := Option.ne_none_iff_exists'.1 (h model hmodel)
        rw [addPrepared, slotOf, hmap, if_neg (hattitude model hmodel)]
        rfl
  have hinit : initGetData m keySet g models =
      .ok (preparedFields keySet g (preparedLists m models)) := by
    rw [initGetData, if_neg hheader, hadd]
    rfl
  rw [initAndGetData, hinit, lift_ok_bind]

/-- The slots of the data models of one object. -/
theorem getPreparedData_of_forall {obj : JString} (hkeys : ∀ objs, (keySet objs).Perm objs)
    (hobj : ∀ model ∈ models, model.dataItem.objectName = obj) (hmodels : models ≠ []) :
    (getPreparedData F m keySet (preparedFields keySet g (preparedLists m models)) origin
        offset count : Stateful _ (Arrays ι D) _) =
      getObjectData F m (toLong (origin + offset)) count obj (models.map (slotOf m))
        (models.map (startPos offset)) := by
  obtain ⟨hmap, hlast⟩ := preparedFields_spec keySet g (preparedLists m models)
  rw [preparedLists_of_forall hobj hmodels] at hmap hlast ⊢
  set fields := preparedFields keySet g _
  have hkey : keySet [obj] = [obj] := List.perm_singleton.1 (hkeys [obj])
  have hlist : fields.listOf obj =
      models.map fun model ↦ (model.dataSeries, (slotOf m model).ind) :=
    listOf_of_mem (by rw [hmap]; exact List.nodup_singleton obj) (by rw [hmap]; exact .head _)
  obtain ⟨hdata, hsize⟩ := hlast obj (by rw [List.map_singleton, hkey]; rfl)
  rw [hlist, List.map_map] at hdata hsize
  rw [getPreparedData, hmap, List.map_singleton, hkey, forM_singleton, hlist, hdata, hsize]
  have hpos := dataPositions_map m offset models
  have hslots : (((models.map ((fun x ↦ x.1.data) ∘ fun model : DataModel ι ↦
      (model.dataSeries, (slotOf m model).ind))).zip
        ((models.map ((fun x ↦ x.1.size) ∘ fun model : DataModel ι ↦
          (model.dataSeries, (slotOf m model).ind))).zip
            ((models.map fun model ↦ (model.dataSeries, (slotOf m model).ind)).map
              Prod.snd))).map fun x ↦ (⟨x.1, x.2.1, x.2.2⟩ : Slot ι)) =
      models.map (slotOf m) := by
    rw [List.map_map, List.zip_map', List.zip_map', List.map_map]
    rfl
  show Stateful.lift (dataPositions offset _ (models.map fun model ↦
    model.dataSeries.size)) >>= _ = _
  rw [hpos, lift_ok_bind, hslots]

end Runs

end Lists

end OpenHRP.LogManager
