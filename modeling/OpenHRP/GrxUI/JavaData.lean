import OpenHRP.Foundations.ByteStream

/-!
# Java's numbers and their data streams

The numbers of the log classes and their bytes in a `DataOutputStream`. Values of the types `int`
and `long` are integers, wrapped around where the code computes or casts. The types `float` and
`double` are known by their bit patterns and by the casts between them; all NaNs are one value.
-/

namespace OpenHRP

/-! ### Integers -/

/-- `x` is a value of the type `int`. -/
def IsInt (x : ℤ) : Prop :=
  -2 ^ 31 ≤ x ∧ x < 2 ^ 31

instance (x : ℤ) : Decidable (IsInt x) :=
  inferInstanceAs (Decidable (_ ∧ _))

theorem isInt_zero : IsInt 0 := by
  decide

theorem isInt_one : IsInt 1 := by
  decide

/-- `x` is a value of the type `long`. -/
def IsLong (x : ℤ) : Prop :=
  -2 ^ 63 ≤ x ∧ x < 2 ^ 63

/-- The value of the type `int` that is left of a number. -/
@[irreducible] def toInt (x : ℤ) : ℤ :=
  x.bmod (2 ^ 32)

/-- The value of the type `long` that is left of a number. -/
@[irreducible] def toLong (x : ℤ) : ℤ :=
  x.bmod (2 ^ 64)

theorem toInt_of_isInt {x : ℤ} (h : IsInt x) : toInt x = x := by
  rw [toInt]
  exact Int.bmod_eq_of_le h.1 h.2

theorem toLong_of_isLong {x : ℤ} (h : IsLong x) : toLong x = x := by
  rw [toLong]
  exact Int.bmod_eq_of_le h.1 h.2

theorem toInt_zero : toInt 0 = 0 := by
  rw [toInt, Int.zero_bmod]

theorem isInt_toInt (x : ℤ) : IsInt (toInt x) := by
  rw [toInt]
  exact ⟨Int.le_bmod (by norm_num), Int.bmod_lt (by norm_num)⟩

/-- Wrapping around keeps a number a multiple of a power of two. -/
theorem dvd_toInt {k x : ℤ} (hk : k ∣ 2 ^ 32) (hx : k ∣ x) : k ∣ toInt x := by
  have hsub : k ∣ x.bmod (2 ^ 32) - x := hk.trans Int.dvd_bmod_sub_self
  rw [toInt, ← sub_add_cancel (x.bmod (2 ^ 32)) x]
  exact Int.dvd_add hsub hx

theorem isLong_toLong (x : ℤ) : IsLong (toLong x) := by
  rw [toLong]
  exact ⟨Int.le_bmod (by norm_num), Int.bmod_lt (by norm_num)⟩

theorem toInt_toInt_sub_toInt (x y : ℤ) : toInt (toInt x - toInt y) = toInt (x - y) := by
  rw [toInt, toInt, toInt, toInt]
  exact (Int.sub_bmod _ _ _).symm

theorem toInt_toInt_add (x y : ℤ) : toInt (toInt x + y) = toInt (x + y) := by
  rw [toInt, toInt, toInt]
  exact Int.bmod_add_bmod

/-! ### Floating-point numbers -/

/-- The values of the type `float`. -/
class JavaFloat (F : Type) where
  /-- `Float.floatToIntBits`. -/
  floatToIntBits : F → BitVec 32
  /-- `Float.intBitsToFloat`. -/
  intBitsToFloat : BitVec 32 → F
  intBitsToFloat_floatToIntBits (f : F) : intBitsToFloat (floatToIntBits f) = f

/-- The values of the type `double`. -/
class JavaDouble (D : Type) where
  /-- `Double.doubleToLongBits`. -/
  doubleToLongBits : D → BitVec 64
  /-- `Double.longBitsToDouble`. -/
  longBitsToDouble : BitVec 64 → D
  longBitsToDouble_doubleToLongBits (d : D) : longBitsToDouble (doubleToLongBits d) = d
  /-- `Math.round(time * 1000000.0)`. -/
  roundMicros : D → ℤ
  /-- `(double)msec * 0.001 + (double)usec * 0.000001`. -/
  ofMillisMicros : ℤ → ℤ → D

/-- The casts between `double` and `float`. -/
class JavaCasts (F D : Type) where
  toFloat : D → F
  toDouble : F → D
  toFloat_toDouble (f : F) : toFloat (toDouble f) = f

export JavaFloat (floatToIntBits intBitsToFloat)
export JavaDouble (doubleToLongBits longBitsToDouble roundMicros ofMillisMicros)
export JavaCasts (toFloat toDouble)

/-- A number that a cast to `float` and back does not change. -/
def IsFloat (F : Type) {D : Type} [JavaCasts F D] (d : D) : Prop :=
  toDouble (toFloat d : F) = d

/-! ### Numbers by their bits

These instances run the model. They are right for numbers of the type `float` that are not
subnormal. -/

/-- The exponent of a `float` as that of a `double`. -/
def widenExponent (e : BitVec 8) : BitVec 11 :=
  if e = 0 then 0 else if e = 255 then 2047 else e.setWidth 11 + 896

def narrowExponent (e : BitVec 11) : BitVec 8 :=
  if e = 0 then 0 else if e = 2047 then 255 else (e - 896).setWidth 8

theorem narrowExponent_widenExponent :
    ∀ e : BitVec 8, narrowExponent (widenExponent e) = e := by
  decide +kernel

/-- The sign, the exponent and the fraction of a `float` as those of a `double`. -/
def widen (b : BitVec 32) : BitVec 64 :=
  (b.extractLsb' 31 1 ++ widenExponent (b.extractLsb' 23 8)) ++ (b.extractLsb' 0 23 ++ 0#29)

def narrow (b : BitVec 64) : BitVec 32 :=
  (b.extractLsb' 63 1 ++ narrowExponent (b.extractLsb' 52 11)) ++ b.extractLsb' 29 23

theorem narrow_widen (b : BitVec 32) : narrow (widen b) = b := by
  have hsign : (widen b).extractLsb' 63 1 = b.extractLsb' 31 1 := by
    rw [widen, BitVec.extractLsb'_append_eq_of_le (by norm_num)]
    exact BitVec.extractLsb'_append_eq_left
  have hexponent : (widen b).extractLsb' 52 11 = widenExponent (b.extractLsb' 23 8) := by
    rw [widen, BitVec.extractLsb'_append_eq_of_le (by norm_num)]
    exact BitVec.extractLsb'_append_eq_right
  have hfraction : (widen b).extractLsb' 29 23 = b.extractLsb' 0 23 := by
    rw [widen, BitVec.extractLsb'_append_eq_of_add_le (by norm_num)]
    exact BitVec.extractLsb'_append_eq_left
  rw [narrow, hsign, hexponent, hfraction, narrowExponent_widenExponent,
    BitVec.extractLsb'_append_extractLsb'_eq_extractLsb' (by norm_num),
    BitVec.extractLsb'_append_extractLsb'_eq_extractLsb' (by norm_num)]
  exact BitVec.extractLsb'_eq_self

instance : JavaFloat (BitVec 32) where
  floatToIntBits b := b
  intBitsToFloat b := b
  intBitsToFloat_floatToIntBits _ := rfl

/-- A number of seconds is known at 0 s and at 0.5 s only. -/
instance : JavaDouble (BitVec 64) where
  doubleToLongBits b := b
  longBitsToDouble b := b
  longBitsToDouble_doubleToLongBits _ := rfl
  roundMicros b :=
    let e := (b.extractLsb' 52 11).toNat
    let m : ℕ := (b.extractLsb' 0 52).toNat + if e = 0 then 0 else 2 ^ 52
    let x : ℤ := (if b.msb then -(m : ℤ) else m) * 1000000
    if 1075 ≤ e then x * 2 ^ (e - 1075) else (2 * x + 2 ^ (1075 - e)) / 2 ^ (1076 - e)
  ofMillisMicros msec usec := if msec = 500 ∧ usec = 0 then 0x3FE0000000000000#64 else 0

instance : JavaCasts (BitVec 32) (BitVec 64) where
  toFloat := narrow
  toDouble := widen
  toFloat_toDouble := narrow_widen

/-! ### Exceptions -/

/-- What the log classes throw, or what the runtime throws in them. -/
inductive LogException
  | eof
  | io
  | logFileFormat
  | logFileOutput (message : String)
  | fileOpenFail
  | nullPointer
  | negativeArraySize
  | arithmetic
  | indexOutOfBounds
  | noSuchElement
  deriving DecidableEq, Repr

/-- An `EOFException` is an `IOException`. -/
def LogException.isIO : LogException → Bool
  | .eof => true
  | .io => true
  | _ => false

/-! ### Data streams -/

def writeInt (i : ℤ) : Bytes :=
  signedBytes 4 i

def writeLong (i : ℤ) : Bytes :=
  signedBytes 8 i

def readFully (n : ℕ) : Reader LogException Bytes :=
  readBytes .eof n

def readInt : Reader LogException ℤ :=
  ofSignedBytes <$> readFully 4

def readLong : Reader LogException ℤ :=
  ofSignedBytes <$> readFully 8

@[simp] theorem length_writeInt (i : ℤ) : (writeInt i).length = 4 :=
  length_signedBytes 4 i

@[simp] theorem length_writeLong (i : ℤ) : (writeLong i).length = 8 :=
  length_signedBytes 8 i

theorem reads_readFully {n : ℕ} {bs : Bytes} (hn : bs.length = n) : Reads (readFully n) bs bs :=
  reads_readBytes _ hn

theorem reads_readInt {i : ℤ} (hi : IsInt i) : Reads readInt (writeInt i) i := by
  have h : ofSignedBytes (writeInt i) = i := by
    rw [writeInt, ofSignedBytes_signedBytes]
    exact Int.bmod_eq_of_le hi.1 hi.2
  exact (reads_readFully (length_writeInt i)).map h

theorem reads_readLong {i : ℤ} (hi : IsLong i) : Reads readLong (writeLong i) i := by
  have h : ofSignedBytes (writeLong i) = i := by
    rw [writeLong, ofSignedBytes_signedBytes]
    exact Int.bmod_eq_of_le hi.1 hi.2
  exact (reads_readFully (length_writeLong i)).map h

section Float

variable {F : Type} [JavaFloat F]

def writeFloat (f : F) : Bytes :=
  bigEndian 4 (floatToIntBits f).toNat

def readFloat (F : Type) [JavaFloat F] : Reader LogException F :=
  (fun bs ↦ intBitsToFloat (BitVec.ofNat 32 (ofBigEndian bs))) <$> readFully 4

@[simp] theorem length_writeFloat (f : F) : (writeFloat f).length = 4 :=
  length_bigEndian _ _

theorem length_flatMap_writeFloat (fs : List F) :
    (fs.flatMap writeFloat).length = 4 * fs.length := by
  induction fs with
  | nil => rfl
  | cons f fs ih => simp [ih, Nat.mul_succ, Nat.add_comm]

theorem reads_readFloat (f : F) : Reads (readFloat F) (writeFloat f) f := by
  have h : intBitsToFloat (BitVec.ofNat 32 (ofBigEndian (writeFloat f))) = f := by
    rw [writeFloat, ofBigEndian_bigEndian, Nat.mod_eq_of_lt (show _ < 256 ^ 4 from BitVec.isLt _),
      BitVec.ofNat_toNat, BitVec.setWidth_eq, JavaFloat.intBitsToFloat_floatToIntBits]
  exact (reads_readFully (length_writeFloat f)).map h

end Float

section Double

variable {D : Type} [JavaDouble D]

def writeDouble (d : D) : Bytes :=
  bigEndian 8 (doubleToLongBits d).toNat

def readDouble (D : Type) [JavaDouble D] : Reader LogException D :=
  (fun bs ↦ longBitsToDouble (BitVec.ofNat 64 (ofBigEndian bs))) <$> readFully 8

@[simp] theorem length_writeDouble (d : D) : (writeDouble d).length = 8 :=
  length_bigEndian _ _

theorem reads_readDouble (d : D) : Reads (readDouble D) (writeDouble d) d := by
  have h : longBitsToDouble (BitVec.ofNat 64 (ofBigEndian (writeDouble d))) = d := by
    rw [writeDouble, ofBigEndian_bigEndian, Nat.mod_eq_of_lt (show _ < 256 ^ 8 from BitVec.isLt _),
      BitVec.ofNat_toNat, BitVec.setWidth_eq, JavaDouble.longBitsToDouble_doubleToLongBits]
  exact (reads_readFully (length_writeDouble d)).map h

end Double

/-! ### Times -/

/-- `Time`: milliseconds and microseconds. -/
structure Time where
  msec : ℤ
  usec : ℤ
  isInt_msec : IsInt msec
  isInt_usec : IsInt usec
  deriving DecidableEq

namespace Time

def zero : Time :=
  ⟨0, 0, isInt_zero, isInt_zero⟩

/-- The time in microseconds. -/
def getUtime (t : Time) : ℤ :=
  t.msec * 1000 + t.usec

def setUtime (utime : ℤ) : Time where
  msec := toInt (utime.tdiv 1000)
  usec := (toInt utime).tmod 1000
  isInt_msec := isInt_toInt _
  isInt_usec := by
    have h := Int.tmod_lt_of_pos (toInt utime) (b := 1000) (by norm_num)
    have h' := Int.lt_tmod_of_pos (toInt utime) (b := 1000) (by norm_num)
    constructor <;> omega

/-- `set(double time)`: a time in seconds. -/
def ofSeconds {D : Type} [JavaDouble D] (time : D) : Time where
  msec := toInt ((roundMicros time).tdiv 1000)
  usec := toInt ((roundMicros time).tmod 1000)
  isInt_msec := isInt_toInt _
  isInt_usec := isInt_toInt _

/-- The time in seconds. -/
def getDouble (D : Type) [JavaDouble D] (t : Time) : D :=
  ofMillisMicros t.msec t.usec

theorem getUtime_bounds (t : Time) : -2 ^ 42 < t.getUtime ∧ t.getUtime < 2 ^ 42 := by
  obtain ⟨hm, hm'⟩ := t.isInt_msec
  obtain ⟨hu, hu'⟩ := t.isInt_usec
  rw [getUtime]
  constructor <;> omega

theorem isLong_getUtime (t : Time) : IsLong t.getUtime := by
  obtain ⟨h, h'⟩ := t.getUtime_bounds
  constructor <;> omega

end Time

/-- `SimulationTime`, as far as the logs read it. -/
structure SimulationTime where
  totalTime : Time
  startTime : Time
  timeStep : Time

end OpenHRP
