import OpenHRP.GrxUI.GraphReader

/-!
# The loops of the graph readers

The loops over the items of a record and over the records write every array at its places, one
after the other round the ring, as long as the numbers are read. One loop reads the file on from
record to record, the other one seeks every number: from the right place they do the same
(`recordLoop_readRecord`).
-/

namespace OpenHRP.LogManager

open Stateful

variable {ι D : Type}

/-! ### What the loops write -/

section Loops

variable [DecidableEq ι] {P : Type}
  {read : P → ℤ → Except LogException (P × (Option ℕ → Except LogException D))}
  {value value' : Option ℕ → Except LogException D} {slots : List (Slot ι)} {dataPos : List ℤ}
  {c : ι × ℤ}

theorem blind_storeAt (slot : Slot ι) (pos : ℤ) (v : D) : Blind (storeAt slot pos v) := by
  rw [storeAt]
  split
  · exact .write _ _
  · exact .throw _

theorem blind_storeItems (value : Option ℕ → Except LogException D) :
    ∀ (slots : List (Slot ι)) (dataPos : List ℤ), Blind (storeItems value slots dataPos)
  | [], _ => .pure _
  | _ :: _, [] => .pure _
  | slot :: slots, pos :: dataPos =>
    (Blind.lift _).bind fun v ↦ (blind_storeAt slot pos v).bind fun _ ↦
      (blind_storeItems value slots dataPos).bind fun _ ↦ .pure _

theorem blind_recordLoop (slots : List (Slot ι)) : ∀ (count : ℕ) (place : P) (recNo : ℤ)
    (dataPos : List ℤ), Blind (recordLoop read slots count place recNo dataPos)
  | 0, _, _, _ => .pure _
  | count + 1, _, _, dataPos =>
    (Blind.lift _).bind fun x ↦ (blind_storeItems x.2 slots dataPos).bind fun _ ↦
      blind_recordLoop slots count x.1 _ _

variable {slot : Slot ι}

theorem keeps_storeAt (h : slot.data ≠ c.1) (pos : ℤ) (v : D) : Keeps (storeAt slot pos v) c := by
  rw [storeAt]
  split
  · exact keeps_write (fun heq ↦ h (congrArg Prod.fst heq).symm) v
  · exact fun _ ↦ rfl

/-- The loop keeps the arrays whose numbers are not read. -/
theorem keeps_storeItems :
    ∀ {slots : List (Slot ι)} (dataPos : List ℤ), (∀ slot ∈ slots, slot.data = c.1 →
      ∃ e, value slot.ind = .error e) → Keeps (storeItems value slots dataPos) c
  | [], _, _ => fun _ ↦ rfl
  | _ :: _, [], _ => fun _ ↦ rfl
  | slot :: slots, pos :: dataPos, h => by
    rw [storeItems]
    rcases hv : value slot.ind with e | v
    · exact fun _ ↦ rfl
    · have hslot : slot.data ≠ c.1 := fun heq ↦ by
        obtain ⟨e, he⟩ := h slot (.head _) heq
        rw [hv] at he
        nomatch he
      rw [lift_ok_bind]
      refine (keeps_storeAt hslot pos v).bind fun _ ↦ ?_
      exact (keeps_storeItems dataPos fun slot' h' ↦ h slot' (.tail _ h')).bind fun _ _ ↦ rfl

theorem keeps_recordLoop (h : ∀ place recNo place' value, read place recNo = .ok (place', value) →
      ∀ slot ∈ slots, slot.data = c.1 → ∃ e, value slot.ind = .error e) :
    ∀ (count : ℕ) (place : P) (recNo : ℤ) (dataPos : List ℤ),
      Keeps (recordLoop read slots count place recNo dataPos) c
  | 0, _, _, _ => fun _ ↦ rfl
  | count + 1, place, recNo, dataPos => by
    rw [recordLoop]
    rcases hread : read place recNo with e | ⟨place', value⟩
    · exact fun _ ↦ rfl
    · rw [lift_ok_bind]
      exact (keeps_storeItems dataPos (h _ _ _ _ hread)).bind fun _ ↦
        keeps_recordLoop h count _ _ _

/-- The places are in the arrays. -/
def InRing (slots : List (Slot ι)) (dataPos : List ℤ) : Prop :=
  List.Forall₂ (fun slot pos ↦ 0 ≤ pos ∧ pos < slot.size) slots dataPos

omit [DecidableEq ι] in
theorem inRing_map {α : Type} {slot : α → Slot ι} {pos : α → ℤ} {l : List α}
    (h : ∀ a ∈ l, 0 ≤ pos a ∧ pos a < (slot a).size) : InRing (l.map slot) (l.map pos) :=
  List.forall₂_map_left_iff.2 (List.forall₂_map_right_iff.2 (List.forall₂_same.2 h))

theorem nextPos_mem {size pos : ℤ} (h : 0 ≤ pos ∧ pos < size) :
    0 ≤ nextPos size pos ∧ nextPos size pos < size := by
  rw [nextPos]
  split <;> omega

theorem completes_storeAt {pos : ℤ} (h : 0 ≤ pos ∧ pos < slot.size) (v : D) :
    Completes (storeAt slot pos v) ⟨⟩ := by
  rw [storeAt, if_pos h]
  exact fun _ ↦ rfl

theorem overwrites_storeAt {pos : ℤ} (h : 0 ≤ pos ∧ pos < slot.size) (v : D) :
    Overwrites (storeAt slot pos v) (slot.data, pos) := by
  rw [storeAt, if_pos h]
  exact overwrites_write _ _

/-- When all numbers are read, every array is written at its place. -/
theorem exists_completes_storeItems (value : Option ℕ → Except LogException D)
    (hring : InRing slots dataPos) (h : ∀ slot ∈ slots, ∃ v, value slot.ind = .ok v) :
    ∃ next, Completes (storeItems value slots dataPos) next ∧ InRing slots next := by
  induction hring with
  | nil => exact ⟨[], fun _ ↦ rfl, .nil⟩
  | @cons slot pos slots dataPos hpos _ ih =>
    obtain ⟨v, hv⟩ := h slot (.head _)
    obtain ⟨next, hnext, hring⟩ := ih fun slot' h' ↦ h slot' (.tail _ h')
    refine ⟨nextPos slot.size pos :: next, ?_, .cons (nextPos_mem hpos) hring⟩
    rw [storeItems, hv, lift_ok_bind]
    exact (completes_storeAt hpos v).bind (hnext.bind fun _ ↦ rfl)

theorem overwrites_storeItems (hring : InRing slots dataPos)
    (h : ∀ slot ∈ slots, ∃ v, value slot.ind = .ok v) {pos : ℤ}
    (hmem : (slot, pos) ∈ slots.zip dataPos) :
    Overwrites (storeItems value slots dataPos) (slot.data, pos) := by
  induction hring with
  | nil => nomatch hmem
  | @cons slot' pos' slots dataPos hpos hring ih =>
    obtain ⟨v, hv⟩ := h slot' (.head _)
    rw [storeItems, hv, lift_ok_bind]
    rw [List.zip_cons_cons, List.mem_cons] at hmem
    rcases hmem with heq | hmem
    · obtain ⟨rfl, rfl⟩ := Prod.mk.inj heq
      exact (overwrites_storeAt hpos v).bind (blind_storeAt _ _ v) fun _ ↦
        (blind_storeItems value slots dataPos).bind fun _ ↦ .pure _
    · refine .bind_of_completes (completes_storeAt hpos v) ?_
      exact (ih (fun slot'' h'' ↦ h slot'' (.tail _ h'')) hmem).bind
        (blind_storeItems value slots dataPos) fun _ ↦ .pure _

theorem storeItems_congr :
    ∀ {slots : List (Slot ι)}, (∀ slot ∈ slots, value slot.ind = value' slot.ind) →
      ∀ dataPos, storeItems value slots dataPos = storeItems value' slots dataPos
  | [], _, _ => rfl
  | _ :: _, _, [] => rfl
  | slot :: slots, h, pos :: dataPos => by
    rw [storeItems, storeItems, h slot (.head _),
      storeItems_congr (fun slot' h' ↦ h slot' (.tail _ h')) dataPos]

/-- A number that is not read ends the loop. -/
theorem storeItems_ne_ok {slots : List (Slot ι)} {dataPos next : List ℤ} {s t : Arrays ι D}
    (hlength : slots.length = dataPos.length) (hslot : slot ∈ slots) {e : LogException}
    (he : value slot.ind = .error e) :
    runOn (storeItems value slots dataPos) s ≠ (.ok next, t) := by
  induction slots generalizing dataPos next s t with
  | nil => nomatch hslot
  | cons slot' slots ih =>
    obtain ⟨pos, dataPos, rfl⟩ := List.exists_cons_of_length_eq_add_one hlength.symm
    rw [storeItems]
    rcases hv : value slot'.ind with e' | v
    · nofun
    · intro hrun
      rw [lift_ok_bind] at hrun
      rcases hstore : runOn (storeAt slot' pos v) s with ⟨e' | a, t'⟩
      · rw [runOn_bind_error hstore] at hrun
        nomatch hrun
      · rw [runOn_bind_ok hstore] at hrun
        rcases List.mem_cons.1 hslot with rfl | hmem
        · rw [hv] at he
          nomatch he
        · rcases hrest : runOn (storeItems value slots dataPos) t' with ⟨e' | next', t''⟩
          · rw [runOn_bind_error hrest] at hrun
            nomatch hrun
          · exact ih (Nat.succ_injective hlength) hmem hrest

theorem length_of_storeItems :
    ∀ {slots : List (Slot ι)} {dataPos next : List ℤ} {s t : Arrays ι D},
      slots.length = dataPos.length → runOn (storeItems value slots dataPos) s = (.ok next, t) →
        slots.length = next.length
  | [], _, _, _, _, _, h => by
    obtain rfl : [] = _ := Except.ok.inj (congrArg Prod.fst h)
    rfl
  | slot :: slots, pos :: dataPos, next, s, t, hlength, h => by
    rw [storeItems] at h
    rcases hv : value slot.ind with e | v
    · rw [hv] at h
      nomatch h
    · rw [hv, lift_ok_bind] at h
      rcases hstore : runOn (storeAt slot pos v) s with ⟨e | a, t'⟩
      · rw [runOn_bind_error hstore] at h
        nomatch h
      · rw [runOn_bind_ok hstore] at h
        rcases hrest : runOn (storeItems value slots dataPos) t' with ⟨e | next', t''⟩
        · rw [runOn_bind_error hrest] at h
          nomatch h
        · rw [runOn_bind_ok hrest] at h
          obtain rfl : _ = next := Except.ok.inj (congrArg Prod.fst h)
          exact congrArg Nat.succ (length_of_storeItems (Nat.succ_injective hlength) hrest)

/-- The first record overwrites the places of the arrays. -/
theorem overwrites_recordLoop {place place' : P} {recNo : ℤ}
    (hread : read place recNo = .ok (place', value)) (hring : InRing slots dataPos)
    (h : ∀ slot ∈ slots, ∃ v, value slot.ind = .ok v) {pos : ℤ}
    (hmem : (slot, pos) ∈ slots.zip dataPos) (count : ℕ) :
    Overwrites (recordLoop read slots (count + 1) place recNo dataPos) (slot.data, pos) := by
  rw [recordLoop, hread, lift_ok_bind]
  exact (overwrites_storeItems hring h hmem).bind (blind_storeItems value slots dataPos)
    fun _ ↦ blind_recordLoop slots count _ _ _

end Loops

/-! ### Reading a record and a number -/

/-- A file has the records that its header says, of the numbers that the header names. -/
structure HoldsRecords (h : LogHeader) (file : Bytes) : Prop where
  headerSize_nonneg : 0 ≤ h.headerSize
  isInt_headerSize : IsInt h.headerSize
  recordSize : h.recordSize = FLOAT_DATA_SIZE * h.names.length
  isInt_recordSize : IsInt h.recordSize
  isInt_numRecords : IsInt h.numRecords
  length : h.headerSize + h.recordSize * h.numRecords ≤ file.length

/-- Where a record begins. -/
def recordStart (h : LogHeader) (recNo : ℤ) : ℤ :=
  h.headerSize + h.recordSize * recNo

/-- An index of the map is one of a number. -/
theorem lt_of_indexMap {h : LogHeader} {key : JString} {i : ℕ} (hi : h.indexMap key = some i) :
    i < h.names.length := by
  have hfold (l : List JString) : ∀ i, l.zipIdx.foldl
      (fun (map : JString → Option ℕ) x ↦ Function.update map x.1 (some x.2)) (fun _ ↦ none) key =
        some i → i < l.length := by
    induction l using List.reverseRecOn with
    | nil => nofun
    | append_singleton l name ih =>
      intro i hi
      rw [List.zipIdx_append, List.foldl_append] at hi
      change Function.update (_ : JString → Option ℕ) name (some (0 + l.length)) key = some i at hi
      rw [Function.update_apply] at hi
      rw [List.length_append, List.length_singleton]
      split at hi
      · rw [Option.some_inj] at hi
        omega
      · exact (ih i hi).trans (Nat.lt_succ_self _)
  exact hfold h.names i hi

section Reading

variable [JavaDouble D] {F : Type} [JavaFloat F] [JavaCasts F D] {h : LogHeader} {file : Bytes}
  {recNo : ℤ}

theorem readFloat_run {bs : Bytes} (h : 4 ≤ bs.length) :
    ∃ f, (readFloat F).run bs = .ok (f, bs.drop 4) := by
  refine ⟨intBitsToFloat (BitVec.ofNat 32 (ofBigEndian (bs.take 4))), ?_⟩
  have hread : (readFully 4).run bs = .ok (bs.take 4, bs.drop 4) := if_pos h
  rw [readFloat, StateT.run_map, hread]
  rfl

theorem exists_readMany {k : ℕ} {bs : Bytes} (h : 4 * k ≤ bs.length) :
    ∃ fs, (readMany (readFloat F) k).run bs = .ok (fs, bs.drop (4 * k)) ∧
      ∀ i < k, ∃ f rest, fs[i]? = some f ∧ (readFloat F).run (bs.drop (4 * i)) = .ok (f, rest) := by
  induction k generalizing bs with
  | zero => exact ⟨[], rfl, fun i hi ↦ absurd hi (Nat.not_lt_zero i)⟩
  | succ k ih =>
    have hdrop : 4 * k ≤ (bs.drop 4).length := by
      rw [List.length_drop]
      omega
    obtain ⟨f, hf⟩ := readFloat_run (F := F) (by omega : 4 ≤ bs.length)
    obtain ⟨fs, hfs, hget⟩ := ih hdrop
    refine ⟨f :: fs, ?_, fun i hi ↦ ?_⟩
    · rw [readMany, run_bind_ok hf, run_bind_ok hfs, List.drop_drop, Nat.mul_succ, Nat.add_comm]
      rfl
    · rcases i with _ | i
      · exact ⟨f, _, rfl, hf⟩
      · obtain ⟨f', rest, hf', hrun⟩ := hget i (Nat.lt_of_succ_lt_succ hi)
        refine ⟨f', rest, hf', ?_⟩
        rw [List.drop_drop] at hrun
        rwa [Nat.mul_succ, Nat.add_comm]

/-! #### Positions in the file -/

theorem HoldsRecords.itemsPerRec (hh : HoldsRecords h file) : h.itemsPerRec = h.names.length := by
  rw [LogHeader.itemsPerRec, hh.recordSize, FLOAT_DATA_SIZE,
    Int.mul_tdiv_cancel_left _ (by norm_num)]

/-- A record of the log is in the file, and no number leaves its type on the way there. -/
theorem HoldsRecords.recordStart_bounds (hh : HoldsRecords h file) (hin : ¬Outside h recNo) :
    0 ≤ recordStart h recNo ∧ IsLong (recordStart h recNo) ∧
      recordStart h recNo + 4 * h.names.length ≤ file.length ∧
        recordStart h recNo + 2 ^ 31 < 2 ^ 63 := by
  rw [Outside, not_or, not_lt, not_le] at hin
  obtain ⟨hpos, hlt⟩ := hin
  have hsize := hh.recordSize
  have hint := hh.isInt_recordSize.2
  have hhead := hh.isInt_headerSize.2
  have hhead' := hh.headerSize_nonneg
  have hnum := hh.isInt_numRecords.2
  have hlength := hh.length
  rw [FLOAT_DATA_SIZE] at hsize
  rw [hsize] at hlength hint
  have hnonneg : 0 ≤ (4 * h.names.length : ℤ) * recNo := by positivity
  have hmul : (4 * h.names.length : ℤ) * (recNo + 1) ≤ 4 * h.names.length * h.numRecords :=
    mul_le_mul_of_nonneg_left (by omega) (by positivity)
  have hmul' : (4 * h.names.length : ℤ) * recNo ≤ 2 ^ 31 * 2 ^ 31 :=
    mul_le_mul hint.le (by omega) hpos (by norm_num)
  rw [mul_add, mul_one] at hmul
  rw [recordStart, hsize]
  exact ⟨by omega, ⟨by omega, by omega⟩, by omega, by omega⟩

theorem recordStart_succ (h : LogHeader) (recNo : ℤ) :
    recordStart h (recNo + 1) = recordStart h recNo + h.recordSize := by
  rw [recordStart, recordStart]
  ring

/-- In a record of the log both readers read the same numbers. -/
theorem exists_readRecord (hh : HoldsRecords h file) (hin : ¬Outside h recNo) :
    ∃ value : Option ℕ → Except LogException D,
      readRecord F h file (recordStart h recNo) recNo =
        .ok (recordStart h (recNo + 1), value) ∧
      (∀ ind, (∀ i, ind = some i → i < h.names.length) →
        value ind = readNumber F h file recNo ind) ∧
      ∀ i < h.names.length, ∃ v, value (some i) = .ok v := by
  obtain ⟨hpos, hlong, hfits, hmax⟩ := hh.recordStart_bounds hin
  have hlen : 4 * h.names.length ≤ (file.drop (recordStart h recNo).toNat).length := by
    rw [List.length_drop]
    omega
  obtain ⟨fs, hfs, hget⟩ := exists_readMany (F := F) hlen
  refine ⟨recordValue (fs.map toDouble), ?_, fun ind hind ↦ ?_, fun i hi ↦ ?_⟩
  · rw [readRecord, if_neg hin, hh.itemsPerRec, Int.toNat_natCast, hfs, recordStart_succ,
      hh.recordSize]
    rfl
  · unfold readNumber
    rw [if_neg hin]
    rcases ind with _ | i
    · rfl
    · have hi := hind i rfl
      obtain ⟨f, rest, hf, hrun⟩ := hget i hi
      have hint : toInt (FLOAT_DATA_SIZE * i) = 4 * i := by
        have hsize := hh.recordSize
        have hmax' := hh.isInt_recordSize.2
        rw [FLOAT_DATA_SIZE] at hsize ⊢
        exact toInt_of_isInt ⟨by omega, by omega⟩
      have hseek : seek (toLong (h.headerSize + h.recordSize * recNo +
          toInt (FLOAT_DATA_SIZE * i))) = .ok (recordStart h recNo + 4 * i) := by
        have hsum : IsLong (recordStart h recNo + 4 * i) := by
          have hsize := hh.recordSize
          have hmax' := hh.isInt_recordSize.2
          rw [FLOAT_DATA_SIZE] at hsize
          exact ⟨by omega, by omega⟩
        rw [hint]
        show seek (toLong (recordStart h recNo + 4 * i)) = _
        rw [toLong_of_isLong hsum, seek, if_neg (by omega)]
      have hnat : (recordStart h recNo + 4 * i).toNat =
          (recordStart h recNo).toNat + 4 * i := by omega
      rw [List.drop_drop] at hrun
      dsimp only
      rw [hseek, recordValue, List.getElem?_map, hf]
      show .ok (toDouble f) = Except.bind
        ((readFloat F).run (file.drop (recordStart h recNo + 4 * (i : ℤ)).toNat)) _
      rw [hnat, hrun]
      rfl
  · obtain ⟨f, -, hf, -⟩ := hget i hi
    exact ⟨toDouble f, by rw [recordValue, List.getElem?_map, hf]; rfl⟩

theorem readNumber_of_outside (hout : Outside h recNo) (ind : Option ℕ) :
    readNumber F h file recNo ind = .ok (NaN D) := by
  unfold readNumber
  exact if_pos hout

/-- Outside the log the known numbers are not numbers, and the others are not read. -/
theorem readRecord_of_outside (hh : HoldsRecords h file) (hout : Outside h recNo) (pointer : ℤ) :
    ∃ value : Option ℕ → Except LogException D,
      readRecord F h file pointer recNo = .ok (pointer, value) ∧
      (∀ i < h.names.length, value (some i) = .ok (NaN D)) ∧ value none = .error .nullPointer := by
  refine ⟨recordValue (List.replicate h.names.length (NaN D)), ?_, fun i hi ↦ ?_, rfl⟩
  · rw [readRecord, if_pos hout, hh.itemsPerRec, Int.toNat_natCast]
  · rw [recordValue, List.getElem?_replicate_of_lt hi]

/-- The file stands where the next record of the log begins that is read in `count` records. -/
def PointsAt (h : LogHeader) (count : ℕ) (pointer recNo : ℤ) : Prop :=
  (0 < count → ¬Outside h recNo → pointer = recordStart h recNo) ∧
    (recNo < 0 → 0 < recNo + count → pointer = recordStart h 0)

theorem pointsAt_seekRecord (hh : HoldsRecords h file) (pointer recNo : ℤ) (count : ℕ) :
    ∃ pointer', seekRecord h pointer recNo = .ok pointer' ∧ PointsAt h count pointer' recNo := by
  rw [seekRecord]
  by_cases hneg : recNo < 0
  · refine ⟨h.headerSize, ?_, fun _ hin ↦ absurd (.inl hneg) hin, fun _ _ ↦ ?_⟩
    · rw [if_pos hneg, seek, if_neg hh.headerSize_nonneg.not_gt]
    · rw [recordStart, mul_zero, add_zero]
  · rw [if_neg hneg]
    by_cases hlt : recNo < h.numRecords
    · have hin : ¬Outside h recNo := not_or.2 ⟨hneg, hlt.not_ge⟩
      obtain ⟨hpos, hlong, -⟩ := hh.recordStart_bounds hin
      refine ⟨recordStart h recNo, ?_, fun _ _ ↦ rfl, fun h' ↦ absurd h' hneg⟩
      rw [if_pos hlt]
      show seek (toLong (recordStart h recNo)) = _
      rw [toLong_of_isLong hlong, seek, if_neg hpos.not_gt]
    · refine ⟨pointer, by rw [if_neg hlt], fun _ hin ↦ ?_, fun h' ↦ absurd h' hneg⟩
      exact absurd (.inr (not_lt.1 hlt)) hin

theorem toLong_of_lt {x : ℤ} (h : IsLong x) (hlt : x < 2 ^ 63 - 1) : toLong (x + 1) = x + 1 :=
  toLong_of_isLong ⟨by have := h.1; omega, by omega⟩

/-- The next record begins where the record ends. -/
theorem PointsAt.next_inside (hh : HoldsRecords h file) (hin : ¬Outside h recNo) (count : ℕ) :
    PointsAt h count (recordStart h (recNo + 1)) (toLong (recNo + 1)) := by
  rw [Outside, not_or, not_lt, not_le] at hin
  have hnum := hh.isInt_numRecords.2
  rw [toLong_of_isLong ⟨by omega, by omega⟩]
  exact ⟨fun _ _ ↦ rfl, fun hneg ↦ absurd hneg (by omega)⟩

/-- Outside the log the file does not move; and no run is so long that the number of the record
comes to the log again. -/
theorem PointsAt.next_outside {count : ℕ} {pointer : ℤ} (hlong : IsLong recNo)
    (hcount : count + 1 < 2 ^ 31) (hout : Outside h recNo)
    (hp : PointsAt h (count + 1) pointer recNo) :
    PointsAt h count pointer (toLong (recNo + 1)) := by
  have hmin := hlong.1
  have hmax := hlong.2
  by_cases hlast : recNo = 2 ^ 63 - 1
  · have hwrap : toLong (recNo + 1) = -2 ^ 63 := by
      rw [hlast, toLong]
      decide +kernel
    rw [hwrap]
    exact ⟨fun _ hin ↦ absurd (.inl (by norm_num)) hin, fun _ h' ↦ absurd h' (by omega)⟩
  rw [toLong_of_lt hlong (by omega)]
  by_cases hneg : recNo < 0
  · refine ⟨fun hpos hin ↦ ?_, fun _ hsum ↦ hp.2 hneg (by push_cast; omega)⟩
    rw [Outside, not_or, not_lt] at hin
    obtain rfl : recNo = -1 := by omega
    exact hp.2 hneg (by push_cast; omega)
  · have hnum : h.numRecords ≤ recNo := hout.resolve_left hneg
    exact ⟨fun _ hin ↦ absurd (.inr (by omega)) hin, fun h' ↦ absurd h' (by omega)⟩

/-- A record as it is read from where the file stands: what both readers read of it, and where the
file stands then. -/
theorem PointsAt.exists_readRecord {count : ℕ} {pointer : ℤ} (hh : HoldsRecords h file)
    (hlong : IsLong recNo) (hcount : count + 1 < 2 ^ 31)
    (hp : PointsAt h (count + 1) pointer recNo) :
    ∃ (value : Option ℕ → Except LogException D) (pointer' : ℤ),
      readRecord F h file pointer recNo = .ok (pointer', value) ∧
      (∀ ind, (∀ i, ind = some i → i < h.names.length) → (¬Outside h recNo ∨ ind ≠ none) →
        value ind = readNumber F h file recNo ind) ∧
      (∀ i < h.names.length, ∃ v, value (some i) = .ok v) ∧
      PointsAt h count pointer' (toLong (recNo + 1)) := by
  by_cases hout : Outside h recNo
  · obtain ⟨value, hvalue, hsome, -⟩ := readRecord_of_outside (F := F) (D := D) hh hout pointer
    refine ⟨value, pointer, hvalue, fun ind hind hread ↦ ?_, fun i hi ↦ ⟨_, hsome i hi⟩,
      hp.next_outside hlong hcount hout⟩
    obtain ⟨i, rfl⟩ := Option.ne_none_iff_exists'.1 (hread.resolve_left (not_not.2 hout))
    rw [readNumber_of_outside hout, hsome i (hind i rfl)]
  · obtain ⟨value, hvalue, hsame, hok⟩ := LogManager.exists_readRecord (F := F) (D := D) hh hout
    refine ⟨value, recordStart h (recNo + 1), ?_, fun ind hind _ ↦ hsame ind hind, hok,
      PointsAt.next_inside hh hout count⟩
    rw [hp.1 (Nat.succ_pos count) hout, hvalue]

/-! #### The two loops -/

section RecordLoops

variable [DecidableEq ι] {slots : List (Slot ι)}

/-- Where every item names a number, or the first record is one of the log, the two loops do the
same. -/
theorem recordLoop_readRecord (hh : HoldsRecords h file)
    (hslots : ∀ slot ∈ slots, ∀ i, slot.ind = some i → i < h.names.length) :
    ∀ (count : ℕ) {pointer recNo : ℤ} {dataPos : List ℤ}, count < 2 ^ 31 → IsLong recNo →
      PointsAt h count pointer recNo → slots.length = dataPos.length →
        (¬Outside h recNo ∨ ∀ slot ∈ slots, slot.ind ≠ none) → ∀ s : Arrays ι D,
          runOn (recordLoop (readRecord F h file) slots count pointer recNo dataPos) s =
            runOn (recordLoop (fun _ recNo ↦ .ok (PUnit.unit, readNumber F h file recNo)) slots
              count PUnit.unit recNo dataPos) s
  | 0, _, _, _, _, _, _, _, _, _ => rfl
  | count + 1, pointer, recNo, dataPos, hcount, hlong, hp, hlength, hread, s => by
    obtain ⟨value, pointer', hvalue, hsame, -, hp'⟩ :=
      hp.exists_readRecord (F := F) (D := D) hh hlong hcount
    have hcongr (slot) (hslot : slot ∈ slots) :
        value slot.ind = readNumber F h file recNo slot.ind :=
      hsame _ (hslots slot hslot) (hread.imp_right fun hall ↦ hall slot hslot)
    rw [recordLoop, recordLoop, hvalue, lift_ok_bind, lift_ok_bind]
    dsimp only
    rw [storeItems_congr hcongr]
    rcases hstore : runOn (storeItems (readNumber F h file recNo) slots dataPos) s with
      ⟨e | next, t⟩
    · rw [runOn_bind_error hstore, runOn_bind_error hstore]
    · rw [runOn_bind_ok hstore, runOn_bind_ok hstore]
      refine recordLoop_readRecord hh hslots count (Nat.lt_of_succ_lt hcount) (isLong_toLong _) hp'
        (length_of_storeItems hlength hstore) (.inr ?_) t
      rcases hread with hin | hall
      · -- an item without a number has ended the loop
        intro slot hslot hnone
        refine storeItems_ne_ok hlength hslot (e := .nullPointer) ?_ hstore
        unfold readNumber
        rw [if_neg hin, hnone]
      · exact hall

/-- Where every item names a number, all records are read. -/
theorem completes_recordLoop (hh : HoldsRecords h file)
    (hslots : ∀ slot ∈ slots, ∃ i < h.names.length, slot.ind = some i) :
    ∀ (count : ℕ) {pointer recNo : ℤ} {dataPos : List ℤ}, count < 2 ^ 31 → IsLong recNo →
      PointsAt h count pointer recNo → InRing slots dataPos →
        Completes (recordLoop (readRecord F h file) slots count pointer recNo dataPos :
          Stateful _ (Arrays ι D) _) ⟨⟩
  | 0, _, _, _, _, _, _, _ => fun _ ↦ rfl
  | count + 1, pointer, recNo, dataPos, hcount, hlong, hp, hring => by
    obtain ⟨value, pointer', hvalue, -, hok, hp'⟩ :=
      hp.exists_readRecord (F := F) (D := D) hh hlong hcount
    obtain ⟨next, hnext, hring'⟩ := exists_completes_storeItems value hring
      fun slot hslot ↦ by
        obtain ⟨i, hi, hind⟩ := hslots slot hslot
        rw [hind]
        exact hok i hi
    rw [recordLoop, hvalue, lift_ok_bind]
    exact hnext.bind (completes_recordLoop hh hslots count (Nat.lt_of_succ_lt hcount)
      (isLong_toLong _) hp' hring')

end RecordLoops

end Reading

end OpenHRP.LogManager
