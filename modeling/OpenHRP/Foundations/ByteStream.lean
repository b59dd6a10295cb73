import Mathlib.Data.Nat.Digits.Defs

/-!
# Byte streams

Big-endian numerals, sequential readers of a byte stream, and files that are written into at an
offset. `Reads p bs a` says that the reader `p` takes exactly the bytes `bs` from any stream that
starts with them and returns `a`; such facts compose along `bind` (`Reads.bind`), so that a reader
is compared with the writer of its format one field at a time.
-/

/-- A file or what is left of a stream. -/
abbrev Bytes := List UInt8

/-! ### Numerals -/

/-- The last bytes, as many as asked for, of a number in base 256. -/
def bigEndian : ℕ → ℕ → Bytes
  | 0, _ => []
  | w + 1, n => bigEndian w (n / 256) ++ [UInt8.ofNat n]

/-- The value of a numeral in base 256. -/
def ofBigEndian (bs : Bytes) : ℕ :=
  bs.foldl (fun n b ↦ 256 * n + b.toNat) 0

@[simp] theorem length_bigEndian (w n : ℕ) : (bigEndian w n).length = w := by
  induction w generalizing n with
  | zero => rfl
  | succ w ih => simp [bigEndian, ih]

theorem ofBigEndian_append_singleton (bs : Bytes) (b : UInt8) :
    ofBigEndian (bs ++ [b]) = 256 * ofBigEndian bs + b.toNat := by
  simp [ofBigEndian]

theorem ofBigEndian_bigEndian (w n : ℕ) : ofBigEndian (bigEndian w n) = n % 256 ^ w := by
  induction w generalizing n with
  | zero => simp [bigEndian, ofBigEndian, Nat.mod_one]
  | succ w ih =>
    rw [bigEndian, ofBigEndian_append_singleton, ih, pow_succ', Nat.mod_mul, UInt8.toNat_ofNat']
    omega

/-- A signed number in two's complement. -/
def signedBytes (w : ℕ) (i : ℤ) : Bytes :=
  bigEndian w (i % 256 ^ w).toNat

/-- The value of a numeral in two's complement. -/
def ofSignedBytes (bs : Bytes) : ℤ :=
  (ofBigEndian bs : ℤ).bmod (256 ^ bs.length)

@[simp] theorem length_signedBytes (w : ℕ) (i : ℤ) : (signedBytes w i).length = w :=
  length_bigEndian _ _

theorem ofSignedBytes_signedBytes (w : ℕ) (i : ℤ) :
    ofSignedBytes (signedBytes w i) = i.bmod (256 ^ w) := by
  have hpos : (0 : ℤ) < 256 ^ w := by positivity
  have hlt : (i % 256 ^ w).toNat < 256 ^ w := by
    rw [Int.toNat_lt (Int.emod_nonneg _ hpos.ne')]
    exact_mod_cast Int.emod_lt_of_pos _ hpos
  rw [ofSignedBytes, length_signedBytes, signedBytes, ofBigEndian_bigEndian, Nat.mod_eq_of_lt hlt,
    Int.toNat_of_nonneg (Int.emod_nonneg _ hpos.ne')]
  exact_mod_cast Int.emod_bmod i (256 ^ w)

/-! ### Readers -/

/-- A reader takes bytes from the front of a stream, or fails. -/
abbrev Reader (ε α : Type) := StateT Bytes (Except ε) α

section Reader

variable {ε α β : Type}

/-- Take the next bytes, and fail where the stream ends before. -/
def readBytes (eof : ε) (n : ℕ) : Reader ε Bytes := fun bs ↦
  if n ≤ bs.length then .ok (bs.take n, bs.drop n) else .error eof

/-- Read a number of items. -/
def readMany (p : Reader ε α) : ℕ → Reader ε (List α)
  | 0 => pure []
  | n + 1 => do
    let a ← p
    let as ← readMany p n
    return a :: as

/-- The reader takes these bytes from a stream and returns this value. -/
def Reads (p : Reader ε α) (bs : Bytes) (a : α) : Prop :=
  ∀ rest, p.run (bs ++ rest) = .ok (a, rest)

variable {p : Reader ε α} {f : α → Reader ε β}

theorem run_bind_ok {bs cs : Bytes} {a : α}
    (h : p.run bs = .ok (a, cs)) : (p >>= f).run bs = (f a).run cs := by
  rw [StateT.run_bind, h]
  rfl

theorem run_bind_error {bs : Bytes} {e : ε}
    (h : p.run bs = .error e) : (p >>= f).run bs = .error e := by
  rw [StateT.run_bind, h]
  rfl

/-- What a reader that has run to its end has run through. -/
theorem exists_of_run_bind {bs ds : Bytes} {b : β} (h : (p >>= f).run bs = .ok (b, ds)) :
    ∃ a cs, p.run bs = .ok (a, cs) ∧ (f a).run cs = .ok (b, ds) := by
  rcases hp : p.run bs with e | ⟨a, cs⟩
  · rw [run_bind_error hp] at h
    cases h
  · exact ⟨a, cs, rfl, by rwa [run_bind_ok hp] at h⟩

namespace Reads

variable {p : Reader ε α} {f : α → Reader ε β} {bs cs : Bytes} {a : α} {b : β}

theorem pure (a : α) : Reads (pure a : Reader ε α) [] a := fun _ ↦ rfl

/-- What follows a read runs on what the read has left. -/
theorem run_bind (hp : Reads p bs a) (rest : Bytes) :
    (p >>= f).run (bs ++ rest) = (f a).run rest :=
  run_bind_ok (hp rest)

theorem bind (hp : Reads p bs a) (hf : Reads (f a) cs b) : Reads (p >>= f) (bs ++ cs) b := by
  intro rest
  rw [List.append_assoc, hp.run_bind, hf rest]

theorem map {g : α → β} (hp : Reads p bs a) (hb : g a = b) : Reads (g <$> p) bs b := by
  intro rest
  rw [StateT.run_map, hp rest, ← hb]
  rfl

end Reads

theorem reads_readBytes (eof : ε) {n : ℕ} {bs : Bytes} (hn : bs.length = n) :
    Reads (readBytes eof n) bs bs := by
  intro rest
  simp [readBytes, StateT.run, ← hn]

variable {encode : α → Bytes}

/-- A stream of encoded items is read item by item. -/
theorem reads_readMany_map {p : Reader ε β} {decode : α → β} :
    ∀ as : List α, (∀ a ∈ as, Reads p (encode a) (decode a)) →
      Reads (readMany p as.length) (as.flatMap encode) (as.map decode)
  | [], _ => Reads.pure []
  | a :: as, h => by
    have hrest := reads_readMany_map as fun b hb ↦ h b (.tail a hb)
    rw [List.flatMap_cons, ← List.append_nil (as.flatMap encode)]
    exact (h a (.head as)).bind (hrest.bind (Reads.pure _))

theorem reads_readMany (as : List α) (h : ∀ a ∈ as, Reads p (encode a) a) :
    Reads (readMany p as.length) (as.flatMap encode) as := by
  have hmap : Reads (readMany p as.length) (as.flatMap encode) (as.map id) :=
    reads_readMany_map as h
  rwa [List.map_id] at hmap

/-- Where a stream ends before the number of items is reached, the reader fails. -/
theorem readMany_run_of_lt {eof : ε} (heof : p.run [] = .error eof) {n : ℕ} :
    ∀ as : List α, as.length < n → (∀ a ∈ as, Reads p (encode a) a) →
      (readMany p n).run (as.flatMap encode) = .error eof := by
  induction n with
  | zero => intro as hn; omega
  | succ n ih =>
    intro as hn h
    cases as with
    | nil => exact run_bind_error heof
    | cons a as =>
      have hlt : as.length < n := Nat.lt_of_succ_lt_succ hn
      rw [List.flatMap_cons, readMany, (h a (.head as)).run_bind]
      exact run_bind_error (ih as hlt fun b hb ↦ h b (.tail a hb))

/-- The items that have been read are as many as were asked for. -/
theorem length_of_readMany {n : ℕ} :
    ∀ {bs rest : Bytes} {as : List α}, (readMany p n).run bs = .ok (as, rest) → as.length = n := by
  induction n with
  | zero =>
    intro bs rest as h
    cases h
    rfl
  | succ n ih =>
    intro bs rest as h
    obtain ⟨a, cs, -, hrest⟩ := exists_of_run_bind h
    obtain ⟨as', ds, has, hpure⟩ := exists_of_run_bind hrest
    cases hpure
    rw [List.length_cons, ih has]

end Reader

/-! ### Writing into a file -/

/-- Write at an offset. A gap behind the end of the file is filled with zeros. -/
def overwrite (file : Bytes) (pos : ℕ) (new : Bytes) : Bytes :=
  file.take pos ++ List.replicate (pos - file.length) 0 ++ new ++ file.drop (pos + new.length)

theorem length_overwrite (file : Bytes) (pos : ℕ) (new : Bytes) :
    (overwrite file pos new).length = max file.length (pos + new.length) := by
  simp only [overwrite, List.length_append, List.length_take, List.length_replicate,
    List.length_drop]
  omega

/-- A field is replaced by one of the same length. -/
theorem overwrite_field {pre old new : Bytes} {pos : ℕ} (post : Bytes) (hpos : pre.length = pos)
    (h : old.length = new.length) :
    overwrite (pre ++ old ++ post) pos new = pre ++ new ++ post := by
  have hdrop : (pre ++ old ++ post).drop (pre.length + new.length) = post := by
    rw [← h, ← List.length_append, List.drop_left]
  rw [overwrite, ← hpos, hdrop]
  simp

/-- The end of a file is replaced by something that is at least as long. -/
theorem overwrite_tail {pre old new : Bytes} {pos : ℕ} (hpos : pre.length = pos)
    (h : old.length ≤ new.length) : overwrite (pre ++ old) pos new = pre ++ new := by
  have hdrop : (pre ++ old).drop (pre.length + new.length) = [] := by
    rw [List.drop_eq_nil_iff, List.length_append]
    omega
  rw [overwrite, ← hpos, hdrop]
  simp
