import OpenHRP.Util.ScannerSafety
import Mathlib.Tactic.Ring

/-!
# The grammar of floating-point numbers

A numeral is what `strtod` accepts: a sign, digits with a point in front of, between or behind them
and an exponent, or `nan` (`Numeral`). `mystrtod` is to read the longest numeral that a text starts
with (`ReadsLongest`).

It has one flag for the number being valid, which a point and the mark of an exponent take back
until a digit follows. So it gives up a number that ends with its point, and a number before an `e`
that no exponent follows; and what is behind `na` is read as if `na` were not there. In all other
cases it reads the longest numeral (`readsLongest_mystrtod_iff`).
-/

namespace OpenHRP.EasyScanner

/-! ### The grammar -/

def AllDigits (l : Text) : Prop :=
  ∀ c ∈ l, isdigit c = true

instance decidableAllDigits (l : Text) : Decidable (AllDigits l) :=
  inferInstanceAs (Decidable (∀ c ∈ l, isdigit c = true))

/-- The number that digits stand for. -/
def naturalValue (l : Text) : ℕ :=
  l.foldl (fun v c ↦ v * 10 + digitValue c) 0

inductive Sign where
  | none
  | plus
  | minus

def Sign.text : Sign → Text
  | none => []
  | plus => ['+']
  | minus => ['-']

def Sign.isNegative : Sign → Bool
  | minus => true
  | _ => false

/-- Digits, and a point with more digits. There is at least one digit. -/
structure Mantissa where
  whole : Text
  decimals : Option Text
  whole_digits : AllDigits whole
  decimals_digits : ∀ l ∈ decimals, AllDigits l
  exists_digit : whole ≠ [] ∨ ∃ l ∈ decimals, l ≠ []

def Mantissa.text (m : Mantissa) : Text :=
  m.whole ++ m.decimals.elim [] ('.' :: ·)

structure Exponent where
  mark : Char
  sign : Sign
  digits : Text
  mark_eq : mark = 'e' ∨ mark = 'E'
  digits_digits : AllDigits digits
  digits_ne : digits ≠ []

def Exponent.text (e : Exponent) : Text :=
  e.mark :: (e.sign.text ++ e.digits)

def Exponent.value (e : Exponent) : ℤ :=
  if e.sign.isNegative then -(naturalValue e.digits : ℤ) else naturalValue e.digits

def exponentText (e : Option Exponent) : Text :=
  e.elim [] Exponent.text

/-- `nan`, in upper or lower case. -/
def IsNan (l : Text) : Prop :=
  ∃ c d e : Char, l = [c, d, e] ∧ (c = 'n' ∨ c = 'N') ∧ (d = 'a' ∨ d = 'A') ∧ (e = 'n' ∨ e = 'N')

inductive Numeral where
  | number (sign : Sign) (mantissa : Mantissa) (exponent : Option Exponent)
  | nan (sign : Sign) (text : Text) (isNan : IsNan text)

def Numeral.text : Numeral → Text
  | number s m e => s.text ++ (m.text ++ exponentText e)
  | nan s l _ => s.text ++ l

section Value

variable {K : Type*} [Field K]

/-- The number that digits behind a point stand for. -/
def decimalsValue : Text → K
  | [] => 0
  | c :: l => ((digitValue c : ℕ) + decimalsValue l) * ((10 : ℕ) : K)⁻¹

def Mantissa.value (m : Mantissa) : K :=
  (naturalValue m.whole : ℕ) + m.decimals.elim 0 decimalsValue

/-- The number without its sign. -/
def magnitude (m : Mantissa) (e : Option Exponent) : K :=
  m.value * ((10 : ℕ) : K) ^ e.elim 0 Exponent.value

/-- What a numeral denotes: there is no number for NaN. -/
def Numeral.value : Numeral → Option K
  | number s m e => some (if s.isNegative then -magnitude m e else magnitude m e)
  | nan _ _ _ => none

/-- A number and the text behind it are read from the longest numeral that the text starts with. If
there is none, the text is left as it is. -/
def ReadsLongest (org : Text) (r : Option K × Text) : Prop :=
  (∃ n : Numeral, org = n.text ++ r.2 ∧ r.1 = n.value ∧
      ∀ n' : Numeral, n'.text <+: org → n'.text.length ≤ n.text.length) ∨
    r.2 = org ∧ ∀ n : Numeral, ¬n.text <+: org

end Value

/-! ### What the reader gives up -/

/-- A number that ends with its point. -/
def TrailingPoint (text : Text) : Prop :=
  ∃ l rest, AllDigits l ∧ l ≠ [] ∧ text = l ++ '.' :: rest ∧ isdigit (peek rest) = false

/-- A number, the mark of an exponent, and no exponent. -/
def EmptyExponent (text : Text) : Prop :=
  ∃ (m : Mantissa) (c : Char) (rest : Text), (c = 'e' ∨ c = 'E') ∧ text = m.text ++ c :: rest ∧
    isdigit (peek (readSign rest).2) = false

/-- `na` before a number instead of `nan`. -/
def PartialNan (text : Text) : Prop :=
  ∃ (c d : Char) (rest : Text), text = c :: d :: rest ∧ (c = 'n' ∨ c = 'N') ∧ (d = 'a' ∨ d = 'A') ∧
    (∃ m : Mantissa, m.text <+: rest) ∧ ¬TrailingPoint rest ∧ ¬EmptyExponent rest

/-! ### Digits -/

variable {c : Char}

theorem allDigits_cons {l : Text} :
    AllDigits (c :: l) ↔ isdigit c = true ∧ AllDigits l :=
  List.forall_mem_cons

/-- A text starts with as many digits as there are. -/
theorem exists_digits (text : Text) :
    ∃ l rest, text = l ++ rest ∧ AllDigits l ∧ isdigit (peek rest) = false := by
  induction text with
  | nil => exact ⟨[], [], rfl, fun _ h ↦ absurd h List.not_mem_nil, rfl⟩
  | cons c text ih =>
    rcases hc : isdigit c with - | -
    · exact ⟨[], c :: text, rfl, fun _ h ↦ absurd h List.not_mem_nil, hc⟩
    · obtain ⟨l, rest, rfl, hl, hrest⟩ := ih
      exact ⟨c :: l, rest, rfl, allDigits_cons.2 ⟨hc, hl⟩, hrest⟩

/-- Digits at the start of a text are among those that it starts with. -/
theorem AllDigits.prefix_of {l l' rest : Text} (hl : AllDigits l)
    (hrest : isdigit (peek rest) = false) (h : l <+: l' ++ rest) : l <+: l' := by
  induction l generalizing l' with
  | nil => exact List.nil_prefix
  | cons c l ih =>
    obtain ⟨hc, hl⟩ := allDigits_cons.1 hl
    rcases l' with - | ⟨d, l'⟩
    · obtain ⟨z, hz⟩ := h
      rw [List.nil_append] at hz
      rw [← hz, List.cons_append, peek, List.headD_cons, hc] at hrest
      cases hrest
    · obtain ⟨rfl, htail⟩ := List.cons_prefix_cons.1 h
      exact (List.prefix_cons_inj c).2 (ih hl htail)

/-- Digits that something else follows are all those that the text starts with. -/
theorem AllDigits.eq_of_prefix {l l' y rest : Text} (hl : AllDigits l)
    (hl' : AllDigits l') (hc : isdigit c = false) (hrest : isdigit (peek rest) = false)
    (h : l ++ c :: y <+: l' ++ rest) : l = l' ∧ c :: y <+: rest := by
  induction l generalizing l' with
  | nil =>
    rcases l' with - | ⟨d, l'⟩
    · exact ⟨rfl, h⟩
    · obtain ⟨rfl, -⟩ := List.cons_prefix_cons.1 h
      rw [(allDigits_cons.1 hl').1] at hc
      cases hc
  | cons d l ih =>
    obtain ⟨hd, hl⟩ := allDigits_cons.1 hl
    rcases l' with - | ⟨d', l'⟩
    · obtain ⟨z, hz⟩ := h
      rw [List.nil_append] at hz
      rw [← hz, List.cons_append, List.cons_append, peek, List.headD_cons, hd] at hrest
      cases hrest
    · obtain ⟨rfl, htail⟩ := List.cons_prefix_cons.1 h
      obtain ⟨rfl, hy⟩ := ih hl (allDigits_cons.1 hl').2 htail
      exact ⟨rfl, hy⟩

section Readers

variable {K : Type*} [Field K] {l rest : Text}

theorem readDigits_append (hl : AllDigits l) (hrest : isdigit (peek rest) = false) (n : ℕ) :
    readDigits ((n : ℕ) : K) (l ++ rest) =
      (((l.foldl (fun v c ↦ v * 10 + digitValue c) n : ℕ) : K), rest) := by
  induction l generalizing n with
  | nil =>
    rcases rest with - | ⟨c, rest⟩
    · rfl
    · rw [List.nil_append, readDigits, if_neg (by rw [show isdigit c = false from hrest]; decide)]
      rfl
  | cons c l ih =>
    obtain ⟨hc, hl⟩ := allDigits_cons.1 hl
    rw [List.cons_append, readDigits, if_pos hc, ← Nat.cast_mul, ← Nat.cast_add, ih hl]
    rfl

theorem readDecimals_append (hl : AllDigits l) (hrest : isdigit (peek rest) = false) (value w : K) :
    readDecimals value (w * ((10 : ℕ) : K)⁻¹) (l ++ rest) =
      (value + w * decimalsValue l, rest) := by
  induction l generalizing value w with
  | nil =>
    rcases rest with - | ⟨c, rest⟩
    · rw [List.nil_append, readDecimals, decimalsValue, mul_zero, add_zero]
    · rw [List.nil_append, readDecimals, if_neg (by rw [show isdigit c = false from hrest]; decide),
        decimalsValue, mul_zero, add_zero]
  | cons c l ih =>
    obtain ⟨hc, hl⟩ := allDigits_cons.1 hl
    rw [List.cons_append, readDecimals, if_pos hc, ih hl, decimalsValue]
    congr 1
    ring

theorem readExponent_append (hl : AllDigits l) (hrest : isdigit (peek rest) = false) (p : ℕ) :
    readExponent p (l ++ rest) = (l.foldl (fun v c ↦ v * 10 + digitValue c) p, rest) := by
  induction l generalizing p with
  | nil =>
    rcases rest with - | ⟨c, rest⟩
    · rfl
    · rw [List.nil_append, readExponent, if_neg (by rw [show isdigit c = false from hrest]; decide)]
      rfl
  | cons c l ih =>
    obtain ⟨hc, hl⟩ := allDigits_cons.1 hl
    rw [List.cons_append, readExponent, if_pos hc, ih hl]
    rfl

/-! ### The mantissa -/

/-- The part of `readMagnitude` that reads the mantissa: whether it is valid, its value, and the
text behind it. -/
def readMantissa (text : Text) : Bool × K × Text :=
  let (value, rest) := readDigits (0 : K) text
  match rest with
  | '.' :: rest =>
    let (value, rest') := readDecimals value ((10 : ℕ) : K)⁻¹ rest
    (isdigit (peek rest), value, rest')
  | rest => (isdigit (peek text), value, rest)

theorem readMagnitude_eq (org : Text) (negative : Bool) (text : Text) :
    readMagnitude (K := K) org negative text =
      let (valid, value, text) := readMantissa text
      if valid && (peek text = 'e' || peek text = 'E') then
        let (negativeExponent, text) := readSign (text.drop 1)
        let valid := isdigit (peek text)
        let (p, text) := readExponent 0 text
        finishDouble org negative valid
          (if valid then value * ((10 : ℕ) : K) ^ (if negativeExponent then -(p : ℤ) else p)
            else value)
          text
      else finishDouble org negative valid value text :=
  rfl

theorem readMantissa_point {l l' rest : Text} (hl : AllDigits l) (hl' : AllDigits l')
    (hrest : isdigit (peek rest) = false) :
    readMantissa (K := K) (l ++ '.' :: (l' ++ rest)) =
      (isdigit (peek (l' ++ rest)), ((naturalValue l : ℕ) : K) + decimalsValue l', rest) := by
  have hdigits : readDigits ((0 : ℕ) : K) (l ++ '.' :: (l' ++ rest)) =
      (((naturalValue l : ℕ) : K), '.' :: (l' ++ rest)) := readDigits_append hl rfl 0
  rw [Nat.cast_zero] at hdigits
  have hdecimals := readDecimals_append hl' hrest ((naturalValue l : ℕ) : K) 1
  rw [one_mul, one_mul] at hdecimals
  rw [readMantissa, hdigits]
  show (isdigit (peek (l' ++ rest)), readDecimals ((naturalValue l : ℕ) : K) _ _) = _
  rw [hdecimals]

theorem readMantissa_of_ne (hl : AllDigits l) (hrest : isdigit (peek rest) = false)
    (hpoint : peek rest ≠ '.') :
    readMantissa (K := K) (l ++ rest) =
      (isdigit (peek (l ++ rest)), ((naturalValue l : ℕ) : K), rest) := by
  have hdigits := readDigits_append (K := K) hl hrest 0
  rw [Nat.cast_zero] at hdigits
  rw [readMantissa, hdigits]
  dsimp only
  split
  · exact absurd rfl hpoint
  · rfl

theorem isdigit_peek_append (hl : AllDigits l) (hrest : isdigit (peek rest) = false) :
    isdigit (peek (l ++ rest)) = true ↔ l ≠ [] := by
  rcases l with - | ⟨c, l⟩
  · rw [List.nil_append, hrest]
    exact iff_of_false (by decide) fun h ↦ h rfl
  · exact iff_of_true (allDigits_cons.1 hl).1 (List.cons_ne_nil c l)

end Readers

variable {m : Mantissa}

theorem Mantissa.text_of_none (h : m.decimals = none) : m.text = m.whole := by
  rw [text, h]
  exact List.append_nil _

theorem Mantissa.text_of_some {l : Text} (h : m.decimals = some l) :
    m.text = m.whole ++ '.' :: l := by
  rw [text, h]
  rfl

/-- How a text can start with a mantissa: with some of its digits, or with all of them and a
point. -/
theorem Mantissa.prefix_cases {l rest : Text} (hl : AllDigits l)
    (hrest : isdigit (peek rest) = false) (h : m.text <+: l ++ rest) :
    m.decimals = none ∧ m.whole <+: l ∨
      ∃ l', m.decimals = some l' ∧ m.whole = l ∧ '.' :: l' <+: rest := by
  rcases hdecimals : m.decimals with - | l'
  · rw [m.text_of_none hdecimals] at h
    exact .inl ⟨rfl, m.whole_digits.prefix_of hrest h⟩
  · rw [m.text_of_some hdecimals] at h
    exact .inr ⟨l', rfl, m.whole_digits.eq_of_prefix hl rfl hrest h⟩

theorem TrailingPoint.exists_of_digits {l rest : Text} (hl : AllDigits l)
    (hrest : isdigit (peek rest) = false) (h : TrailingPoint (l ++ rest)) :
    l ≠ [] ∧ ∃ rest', rest = '.' :: rest' ∧ isdigit (peek rest') = false := by
  obtain ⟨l', rest', hl', hne, heq, hpeek⟩ := h
  obtain ⟨rfl, -⟩ := hl'.eq_of_prefix hl rfl hrest ⟨[], by rw [heq, List.append_nil]⟩
  exact ⟨hne, rest', List.append_cancel_left heq, hpeek⟩

/-- A mantissa that a text starts with, which has all others at its start. -/
structure Mantissa.IsLongest (m : Mantissa) (text rest : Text) : Prop where
  text_eq : text = m.text ++ rest
  prefix_text : ∀ m' : Mantissa, m'.text <+: text → m'.text <+: m.text

section Mantissa

variable (K : Type*) [Field K]

/-- The mantissa that is read is the longest one. It is valid unless it ends with its point. -/
theorem exists_mantissa (text : Text) :
    ((∀ m : Mantissa, ¬m.text <+: text) ∧ (readMantissa (K := K) text).1 = false) ∨
      ∃ (m : Mantissa) (rest : Text), m.IsLongest text rest ∧
        (readMantissa text).2 = ((m.value : K), rest) ∧
        ((readMantissa (K := K) text).1 = true ↔ ¬TrailingPoint text) := by
  obtain ⟨l, rest, rfl, hl, hrest⟩ := exists_digits text
  by_cases hpoint : peek rest = '.'
  · obtain ⟨behind, rfl⟩ := eq_cons_of_peek (by decide) hpoint
    obtain ⟨l', rest, rfl, hl', hrest'⟩ := exists_digits behind
    have hread := readMantissa_point (K := K) hl hl' hrest'
    have hvalid := isdigit_peek_append hl' hrest'
    by_cases hne : l ≠ [] ∨ l' ≠ []
    · obtain ⟨m, hwhole, hdecimals⟩ : ∃ m : Mantissa, m.whole = l ∧ m.decimals = some l' := by
        refine ⟨⟨l, some l', hl, ?_, hne.imp_right fun h ↦ ⟨l', rfl, h⟩⟩, rfl, rfl⟩
        rintro _ ⟨⟩
        exact hl'
      have htext : m.text = l ++ '.' :: l' := by rw [m.text_of_some hdecimals, hwhole]
      refine .inr ⟨m, rest, ⟨?_, fun m' hm' ↦ ?_⟩, ?_, ?_⟩
      · rw [htext, List.append_assoc]
        rfl
      · rw [htext]
        rcases Mantissa.prefix_cases hl hrest hm' with ⟨hnone, hpre⟩ | ⟨x, hsome, heq, hx⟩
        · rw [m'.text_of_none hnone]
          exact hpre.trans (List.prefix_append l _)
        · rw [m'.text_of_some hsome, heq, List.prefix_append_right_inj, List.prefix_cons_inj]
          exact (m'.decimals_digits x hsome).prefix_of hrest' ((List.prefix_cons_inj '.').1 hx)
      · rw [hread, Mantissa.value, hwhole, hdecimals]
        rfl
      · rw [hread, hvalid]
        refine ⟨fun hne' h ↦ ?_, fun h hnil ↦ h ?_⟩
        · obtain ⟨-, rest', heq, hpeek⟩ := h.exists_of_digits hl hrest
          rw [← (List.cons.inj heq).2, hvalid.2 hne'] at hpeek
          cases hpeek
        · refine ⟨l, l' ++ rest, hl, hne.resolve_right (absurd hnil), rfl, ?_⟩
          rw [hnil]
          exact hrest'
    · obtain ⟨rfl, rfl⟩ := not_or.1 hne |>.imp not_not.1 not_not.1
      refine .inl ⟨fun m hm ↦ ?_, ?_⟩
      · rcases Mantissa.prefix_cases hl hrest hm with ⟨hnone, hpre⟩ | ⟨x, hsome, hwhole, hx⟩
        · rcases m.exists_digit with h | ⟨x, h, -⟩
          · exact h (List.prefix_nil.1 hpre)
          · rw [hnone] at h
            cases h
        · have hnil : x = [] := List.prefix_nil.1
            ((m.decimals_digits x hsome).prefix_of hrest' ((List.prefix_cons_inj '.').1 hx))
          rcases m.exists_digit with h | ⟨y, hy, h⟩
          · exact h hwhole
          · rw [hsome] at hy
            exact h ((Option.some.inj hy).symm.trans hnil)
      · rw [hread]
        exact hrest'
  · have hread := readMantissa_of_ne (K := K) hl hrest hpoint
    have hnot : ∀ x, ¬('.' :: x <+: rest) := by
      rintro x ⟨z, rfl⟩
      exact hpoint rfl
    have hvalid := isdigit_peek_append hl hrest
    by_cases hne : l = []
    · subst hne
      refine .inl ⟨fun m hm ↦ ?_, ?_⟩
      · rcases Mantissa.prefix_cases hl hrest hm with ⟨hnone, hpre⟩ | ⟨x, -, -, hx⟩
        · rcases m.exists_digit with h | ⟨x, h, -⟩
          · exact h (List.prefix_nil.1 hpre)
          · rw [hnone] at h
            cases h
        · exact hnot x hx
      · rw [hread]
        exact hrest
    · obtain ⟨m, hwhole, hdecimals⟩ : ∃ m : Mantissa, m.whole = l ∧ m.decimals = none := by
        refine ⟨⟨l, none, hl, ?_, .inl hne⟩, rfl, rfl⟩
        rintro _ ⟨⟩
      have htext : m.text = l := by rw [m.text_of_none hdecimals, hwhole]
      refine .inr ⟨m, rest, ⟨by rw [htext], fun m' hm' ↦ ?_⟩, ?_, ?_⟩
      · rw [htext]
        rcases Mantissa.prefix_cases hl hrest hm' with ⟨hnone, hpre⟩ | ⟨x, -, -, hx⟩
        · rwa [m'.text_of_none hnone]
        · exact absurd hx (hnot x)
      · rw [hread, Mantissa.value, hwhole, hdecimals]
        exact congrArg (·, rest) (add_zero _).symm
      · rw [hread, hvalid]
        refine iff_of_true hne fun h ↦ ?_
        obtain ⟨-, rest', rfl, -⟩ := h.exists_of_digits hl hrest
        exact hpoint rfl

end Mantissa

/-! ### Signs and exponents -/

/-- The sign that is read is the only one that something else can follow. -/
theorem exists_sign (text : Text) :
    ∃ s : Sign, text = s.text ++ (readSign text).2 ∧ (readSign text).1 = s.isNegative ∧
      ∀ (s' : Sign) (c : Char) (x : Text), c ≠ '+' → c ≠ '-' → s'.text ++ c :: x <+: text →
        s' = s ∧ c :: x <+: (readSign text).2 := by
  rw [readSign.eq_def]
  split
  · rename_i rest
    refine ⟨.plus, rfl, rfl, fun s' c x hplus _ h ↦ ?_⟩
    cases s' with
    | none => exact absurd (List.cons_prefix_cons.1 h).1 hplus
    | plus => exact ⟨rfl, (List.cons_prefix_cons.1 h).2⟩
    | minus => exact absurd (List.cons_prefix_cons.1 h).1 (by decide)
  · rename_i rest
    refine ⟨.minus, rfl, rfl, fun s' c x _ hminus h ↦ ?_⟩
    cases s' with
    | none => exact absurd (List.cons_prefix_cons.1 h).1 hminus
    | plus => exact absurd (List.cons_prefix_cons.1 h).1 (by decide)
    | minus => exact ⟨rfl, (List.cons_prefix_cons.1 h).2⟩
  · rename_i hplus hminus
    refine ⟨.none, rfl, rfl, fun s' c x _ _ ⟨z, hz⟩ ↦ ?_⟩
    cases s' with
    | none => exact ⟨rfl, z, hz⟩
    | plus => exact (hplus _ hz.symm).elim
    | minus => exact (hminus _ hz.symm).elim

theorem ne_sign_of_isdigit (h : isdigit c = true) : c ≠ '+' ∧ c ≠ '-' := by
  refine ⟨?_, ?_⟩
  · rintro rfl
    cases h
  · rintro rfl
    cases h

/-- A mantissa has no mark of an exponent. -/
theorem Mantissa.ne_mark (hc : c = 'e' ∨ c = 'E') : c ∉ m.text := by
  have hdigit : ∀ l, AllDigits l → c ∉ l := by
    intro l hl h
    have h := hl c h
    rcases hc with rfl | rfl <;> cases h
  intro h
  rcases hdecimals : m.decimals with - | l
  · rw [m.text_of_none hdecimals] at h
    exact hdigit _ m.whole_digits h
  · rw [m.text_of_some hdecimals, List.mem_append, List.mem_cons] at h
    rcases h with h | rfl | h
    · exact hdigit _ m.whole_digits h
    · rcases hc with h | h <;> cases h
    · exact hdigit _ (m.decimals_digits l hdecimals) h

/-- A mantissa before the mark of an exponent is the longest one. -/
theorem Mantissa.IsLongest.eq_of_mark {m m' : Mantissa} {text rest y : Text}
    (hm : m.IsLongest text rest) (hc : c = 'e' ∨ c = 'E') (h : m'.text ++ c :: y <+: text) :
    m'.text = m.text ∧ c :: y <+: rest := by
  obtain ⟨z, hz⟩ := hm.prefix_text m' ((List.prefix_append _ _).trans h)
  rw [hm.text_eq, ← hz, List.append_assoc, List.prefix_append_right_inj] at h
  rcases z with - | ⟨d, z⟩
  · rw [List.append_nil] at hz
    exact ⟨hz, h⟩
  · obtain ⟨rfl, -⟩ := List.cons_prefix_cons.1 h
    refine absurd ?_ (m.ne_mark hc)
    rw [← hz]
    exact List.mem_append_right _ List.mem_cons_self

/-! ### The number without its sign -/

section Magnitude

variable {K : Type*} [Field K]

/-- A number that is read is the longest one behind the sign. -/
structure IsLongestMagnitude (m : Mantissa) (e : Option Exponent) (text rest : Text) : Prop where
  text_eq : text = m.text ++ exponentText e ++ rest
  length_le : ∀ (m' : Mantissa) (e' : Option Exponent), m'.text ++ exponentText e' <+: text →
    (m'.text ++ exponentText e').length ≤ (m.text ++ exponentText e).length

/-- Behind the longest mantissa, there is either no exponent or the one that is read. -/
theorem Mantissa.IsLongest.isLongestMagnitude {text rest rest' : Text}
    {e : Option Exponent} (hm : m.IsLongest text rest) (htext : rest = exponentText e ++ rest')
    (he : ∀ e' : Exponent, e'.text <+: rest → e'.text.length ≤ (exponentText e).length) :
    IsLongestMagnitude m e text rest' where
  text_eq := by rw [hm.text_eq, htext, List.append_assoc]
  length_le m' e' h := by
    rw [List.length_append, List.length_append]
    rcases e' with - | e'
    · have hle := (hm.prefix_text m' ((List.prefix_append _ _).trans h)).length_le
      exact Nat.add_le_add hle (Nat.zero_le _)
    · obtain ⟨heq, hrest⟩ := hm.eq_of_mark e'.mark_eq h
      rw [heq]
      exact Nat.add_le_add_left (he e' hrest) _

theorem magnitude_none (m : Mantissa) : magnitude (K := K) m none = m.value := by
  show m.value * ((10 : ℕ) : K) ^ (0 : ℤ) = m.value
  rw [zpow_zero, mul_one]

variable (org : Text) (negative : Bool)

theorem readMagnitude_of_invalid {text : Text} (h : (readMantissa (K := K) text).1 = false) :
    (readMagnitude (K := K) org negative text).2 = org := by
  rw [readMagnitude_eq]
  dsimp only
  rw [h]
  rfl

theorem readMagnitude_of_ne_mark {text rest : Text} {value : K}
    (h : readMantissa text = (true, value, rest)) (hmark : ¬(peek rest = 'e' ∨ peek rest = 'E')) :
    readMagnitude org negative text = (some (if negative then -value else value), rest) := by
  rw [readMagnitude_eq, h]
  dsimp only
  rw [if_neg (by simpa using hmark)]
  rfl

/-- A mark of an exponent that no digit follows, or an exponent. -/
theorem readMagnitude_of_mark {text l rest : Text} {value : K} {s : Sign}
    (hc : c = 'e' ∨ c = 'E') (hl : AllDigits l) (hrest : isdigit (peek rest) = false) {tail : Text}
    (hsign : readSign tail = (s.isNegative, l ++ rest))
    (h : readMantissa text = (true, value, c :: tail)) :
    readMagnitude org negative text = finishDouble org negative (isdigit (peek (l ++ rest)))
      (if isdigit (peek (l ++ rest)) then value * ((10 : ℕ) : K) ^
        (if s.isNegative then -(naturalValue l : ℤ) else naturalValue l) else value) rest := by
  have hdrop : (c :: tail).drop 1 = tail := rfl
  rw [readMagnitude_eq, h]
  dsimp only
  rw [if_pos (by simpa [peek] using hc), hdrop, hsign]
  dsimp only
  rw [readExponent_append hl hrest]
  rfl

/-- A number is read where it does not end with its point or with the mark of an exponent. -/
theorem exists_magnitude (text : Text) :
    (readMagnitude (K := K) org negative text).2 = org ∧
        ((∀ m : Mantissa, ¬m.text <+: text) ∨ TrailingPoint text ∨ EmptyExponent text) ∨
      ∃ (m : Mantissa) (e : Option Exponent) (rest : Text), IsLongestMagnitude m e text rest ∧
        readMagnitude org negative text =
          (some (if negative then -(magnitude m e : K) else magnitude m e), rest) ∧
        ¬TrailingPoint text ∧ ¬EmptyExponent text := by
  rcases exists_mantissa K text with ⟨hnone, hinvalid⟩ | ⟨m, rest, hm, hread, hvalid⟩
  · exact .inl ⟨readMagnitude_of_invalid org negative hinvalid, .inl hnone⟩
  by_cases hpoint : TrailingPoint text
  · rw [← not_iff_not, not_not, Bool.not_eq_true] at hvalid
    exact .inl ⟨readMagnitude_of_invalid org negative (hvalid.2 hpoint), .inr (.inl hpoint)⟩
  have hread : readMantissa text = (true, (m.value : K), rest) := Prod.ext (hvalid.2 hpoint) hread
  by_cases hmark : peek rest = 'e' ∨ peek rest = 'E'
  · obtain ⟨c, tail, rfl⟩ : ∃ c tail, rest = c :: tail := by
      rcases rest with - | ⟨c, tail⟩
      · exact absurd hmark (by decide)
      · exact ⟨c, tail, rfl⟩
    obtain ⟨s, htail, hneg, hsign⟩ := exists_sign tail
    obtain ⟨l, rest, hrest, hl, hpeek⟩ := exists_digits (readSign tail).2
    have hfinish := readMagnitude_of_mark (K := K) org negative hmark hl hpeek (s := s)
      (Prod.ext hneg hrest) hread
    rw [← hrest] at hfinish
    by_cases hnil : l = []
    · have hdigit : isdigit (peek (readSign tail).2) = false := by
        rw [hrest, hnil]
        exact hpeek
      refine .inl ⟨?_, .inr (.inr ⟨m, c, tail, hmark, hm.text_eq, hdigit⟩)⟩
      rw [hfinish, hdigit]
      rfl
    · have hdigit : isdigit (peek (readSign tail).2) = true := by
        rw [hrest]
        exact (isdigit_peek_append hl hpeek).2 hnil
      refine .inr ⟨m, some ⟨c, s, l, hmark, hl, hnil⟩, rest, ?_, ?_, hpoint, ?_⟩
      · refine hm.isLongestMagnitude ?_ fun e h ↦ ?_
        · show c :: tail = c :: (s.text ++ l) ++ rest
          rw [htail, hrest, List.cons_append, List.append_assoc]
        · obtain ⟨-, h⟩ := List.cons_prefix_cons.1 h
          obtain ⟨d, digits, hdigits⟩ := List.exists_cons_of_ne_nil e.digits_ne
          rw [hdigits] at h
          have hd := ne_sign_of_isdigit <|
            e.digits_digits d (by rw [hdigits]; exact List.mem_cons_self)
          obtain ⟨heq, h⟩ := hsign e.sign d digits hd.1 hd.2 h
          rw [← hdigits, hrest] at h
          have hle := (e.digits_digits.prefix_of hpeek h).length_le
          show (e.mark :: (e.sign.text ++ e.digits)).length ≤ (c :: (s.text ++ l)).length
          rw [heq, List.length_cons, List.length_cons, List.length_append, List.length_append]
          omega
      · rw [hfinish, hdigit]
        rfl
      · rintro ⟨m', c', rest', hc', heq, hempty⟩
        obtain ⟨htext, -⟩ : m'.text = m.text ∧ _ :=
          hm.eq_of_mark hc' ⟨[], by rw [heq, List.append_nil]⟩
        rw [hm.text_eq, htext] at heq
        rw [← (List.cons.inj (List.append_cancel_left heq)).2, hdigit] at hempty
        cases hempty
  · refine .inr ⟨m, none, rest, ?_, ?_, hpoint, ?_⟩
    · refine hm.isLongestMagnitude rfl fun e ⟨z, hz⟩ ↦ absurd ?_ hmark
      rw [← hz]
      exact e.mark_eq
    · rw [readMagnitude_of_ne_mark org negative hread hmark, magnitude_none]
    · rintro ⟨m', c', rest', hc', heq, hempty⟩
      obtain ⟨-, z, hz⟩ : m'.text = m.text ∧ _ :=
        hm.eq_of_mark hc' ⟨[], by rw [heq, List.append_nil]⟩
      refine hmark ?_
      rw [← hz]
      exact hc'

end Magnitude

/-! ### The longest numeral -/

theorem Mantissa.exists_cons (m : Mantissa) :
    ∃ c x, m.text = c :: x ∧ (isdigit c = true ∨ c = '.') := by
  rcases hwhole : m.whole with - | ⟨c, l⟩
  · obtain ⟨l, hl, -⟩ := m.exists_digit.resolve_left fun hne ↦ hne hwhole
    exact ⟨'.', l, by rw [m.text_of_some hl, hwhole]; rfl, .inr rfl⟩
  · refine ⟨c, l ++ m.decimals.elim [] ('.' :: ·), by rw [text, hwhole]; rfl, .inl ?_⟩
    exact m.whole_digits c (by rw [hwhole]; exact List.mem_cons_self)

/-- A mantissa does not start where `nan` does. -/
theorem Mantissa.not_prefix_of_nan {text : Text}
    (hc : c = 'n' ∨ c = 'N') : ¬m.text <+: c :: text := by
  obtain ⟨d, x, htext, hd⟩ := m.exists_cons
  rw [htext]
  intro h
  obtain ⟨rfl, -⟩ := List.cons_prefix_cons.1 h
  rcases hc with rfl | rfl <;> rcases hd with hd | hd <;> cases hd

theorem Mantissa.prefix_of_trailingPoint {text : Text} (h : TrailingPoint text) :
    ∃ m : Mantissa, m.text <+: text := by
  obtain ⟨l, rest, hl, hne, rfl, -⟩ := h
  refine ⟨⟨l, none, hl, ?_, .inl hne⟩, '.' :: rest, ?_⟩
  · rintro _ ⟨⟩
  · rw [Mantissa.text_of_none rfl]

theorem Mantissa.prefix_of_emptyExponent {text : Text} (h : EmptyExponent text) :
    ∃ m : Mantissa, m.text <+: text := by
  obtain ⟨m, c, rest, -, rfl, -⟩ := h
  exact ⟨m, List.prefix_append _ _⟩

theorem Numeral.text_ne_nil (n : Numeral) : n.text ≠ [] := by
  intro h
  cases n with
  | number s m e =>
    obtain ⟨c, x, htext, -⟩ := m.exists_cons
    have hm := (List.append_eq_nil_iff.1 (List.append_eq_nil_iff.1 h).2).1
    rw [htext] at hm
    cases hm
  | nan s l hl =>
    obtain ⟨c, d, e, heq, -⟩ := id hl
    have hnil := (List.append_eq_nil_iff.1 h).2
    rw [heq] at hnil
    cases hnil

/-- The numerals that a text starts with are behind its sign. -/
theorem exists_sign_numeral (org : Text) :
    ∃ s : Sign, org = s.text ++ (readSign org).2 ∧ (readSign org).1 = s.isNegative ∧
      ∀ n : Numeral, n.text <+: org →
        (∃ m e, n = .number s m e ∧ m.text ++ exponentText e <+: (readSign org).2) ∨
          ∃ l hl, n = .nan s l hl ∧ l <+: (readSign org).2 := by
  obtain ⟨s, horg, hneg, hsign⟩ := exists_sign org
  refine ⟨s, horg, hneg, fun n hn ↦ ?_⟩
  cases n with
  | number s' m e =>
    obtain ⟨c, x, htext, hc⟩ := m.exists_cons
    have hne : c ≠ '+' ∧ c ≠ '-' := by
      rcases hc with hc | rfl
      · exact ne_sign_of_isdigit hc
      · exact ⟨by decide, by decide⟩
    rw [Numeral.text, htext] at hn
    obtain ⟨rfl, hpre⟩ := hsign s' c _ hne.1 hne.2 hn
    exact .inl ⟨m, e, rfl, by rwa [htext]⟩
  | nan s' l hl =>
    obtain ⟨c, d, e, rfl, hc, -⟩ := id hl
    obtain ⟨rfl, hpre⟩ := hsign s' c _ (by rcases hc with rfl | rfl <;> decide)
      (by rcases hc with rfl | rfl <;> decide) hn
    exact .inr ⟨_, hl, rfl, hpre⟩

section Result

variable {K : Type*} [Field K]

theorem not_readsLongest {org : Text} {r : Option K × Text} {n : Numeral} (hn : n.text <+: org)
    (h : r.2 = org) : ¬ReadsLongest org r := by
  rintro (⟨n', horg, -⟩ | ⟨-, hnone⟩)
  · rw [h] at horg
    exact n'.text_ne_nil (List.self_eq_append_left.1 horg)
  · exact hnone n hn

theorem mystrtod_of_ne (org : Text) (h : ∀ c rest, (readSign org).2 = c :: rest →
    ¬(c = 'n' ∨ c = 'N')) :
    mystrtod (K := K) org = readMagnitude org (readSign org).1 (readSign org).2 := by
  rw [mystrtod]
  dsimp only
  split
  · rename_i hnil
    rw [hnil]
  · rename_i c rest hcons
    rw [if_neg (by simpa using h c rest hcons), hcons]

theorem mystrtod_of_nan {org rest : Text} (hcons : (readSign org).2 = c :: rest)
    (hc : c = 'n' ∨ c = 'N') :
    mystrtod (K := K) org =
      if peek rest = 'a' ∨ peek rest = 'A' then
        if peek (rest.drop 1) = 'n' ∨ peek (rest.drop 1) = 'N' then (none, (rest.drop 1).drop 1)
        else readMagnitude org (readSign org).1 (rest.drop 1)
      else (some 0, org) := by
  rw [mystrtod]
  dsimp only
  rw [hcons]
  dsimp only
  rw [if_pos (by simpa using hc)]
  simp only [Bool.or_eq_true, decide_eq_true_eq]

/-- Where the text does not look like `nan`, the number behind the sign decides. -/
theorem readsLongest_readMagnitude_iff (org : Text) (h : ∀ c rest, (readSign org).2 = c :: rest →
    ¬(c = 'n' ∨ c = 'N')) :
    ReadsLongest org
        (readMagnitude (K := K) org (readSign org).1 (readSign org).2) ↔
      ¬TrailingPoint (readSign org).2 ∧ ¬EmptyExponent (readSign org).2 := by
  obtain ⟨s, horg, hneg, hnumeral⟩ := exists_sign_numeral org
  have hnan : ∀ l, IsNan l → ¬l <+: (readSign org).2 := by
    rintro l ⟨c, d, e, rfl, hc, -⟩ ⟨z, hz⟩
    exact h c _ hz.symm hc
  have hnumber : ∀ m : Mantissa, m.text <+: (readSign org).2 →
      (Numeral.number s m none).text <+: org := by
    rintro m ⟨z, hz⟩
    refine ⟨z, ?_⟩
    rw [Numeral.text, exponentText, Option.elim_none, List.append_nil, List.append_assoc, hz]
    exact horg.symm
  rcases exists_magnitude (K := K) org (readSign org).1 (readSign org).2 with
    ⟨htail, hnone | hgiven⟩ | ⟨m, e, rest, hm, hread, hpoint, hempty⟩
  · refine iff_of_true (.inr ⟨htail, fun n hn ↦ ?_⟩) ⟨fun hpoint ↦ ?_, fun hempty ↦ ?_⟩
    · rcases hnumeral n hn with ⟨m, e, -, hm⟩ | ⟨l, hl, -, hpre⟩
      · exact hnone m ((List.prefix_append _ _).trans hm)
      · exact hnan l hl hpre
    · obtain ⟨m, hm⟩ := Mantissa.prefix_of_trailingPoint hpoint
      exact hnone m hm
    · obtain ⟨m, hm⟩ := Mantissa.prefix_of_emptyExponent hempty
      exact hnone m hm
  · obtain ⟨m, hm⟩ : ∃ m : Mantissa, m.text <+: (readSign org).2 :=
      hgiven.elim Mantissa.prefix_of_trailingPoint Mantissa.prefix_of_emptyExponent
    refine iff_of_false (not_readsLongest (hnumber m hm) htail) ?_
    rintro ⟨hpoint, hempty⟩
    exact hgiven.elim hpoint hempty
  · refine iff_of_true (.inl ⟨.number s m e, ?_, ?_, fun n hn ↦ ?_⟩) ⟨hpoint, hempty⟩
    · rw [hread]
      show org = s.text ++ (m.text ++ exponentText e) ++ rest
      rw [List.append_assoc, ← hm.text_eq]
      exact horg
    · rw [hread, hneg]
      rfl
    · rcases hnumeral n hn with ⟨m', e', rfl, hpre⟩ | ⟨l, hl, -, hpre⟩
      · show (s.text ++ (m'.text ++ exponentText e')).length ≤
          (s.text ++ (m.text ++ exponentText e)).length
        simpa only [List.length_append, Nat.add_le_add_iff_left] using hm.length_le m' e' hpre
      · exact absurd hpre (hnan l hl)

/-- Where the text starts like `nan`, the only numeral is `nan`. -/
theorem readsLongest_iff_not_partialNan {org rest : Text}
    (hcons : (readSign org).2 = c :: rest) (hc : c = 'n' ∨ c = 'N') :
    ReadsLongest org (mystrtod (K := K) org) ↔ ¬PartialNan (c :: rest) := by
  obtain ⟨s, horg, -, hnumeral⟩ := exists_sign_numeral org
  rw [hcons] at horg hnumeral
  have hnan : ∀ n : Numeral, n.text <+: org → ∃ d e rest', rest = d :: e :: rest' ∧
      (d = 'a' ∨ d = 'A') ∧ (e = 'n' ∨ e = 'N') ∧ n.text.length = (s.text ++ [c, d, e]).length := by
    intro n hn
    rcases hnumeral n hn with ⟨m, e, -, hm⟩ | ⟨l, hl, rfl, hpre⟩
    · exact absurd ((List.prefix_append _ _).trans hm) (Mantissa.not_prefix_of_nan hc)
    · obtain ⟨c', d, e, rfl, -, hd, he⟩ := id hl
      obtain ⟨z, hz⟩ := hpre
      obtain ⟨rfl, hrest⟩ := List.cons.inj hz
      exact ⟨d, e, z, hrest.symm, hd, he, rfl⟩
  rw [mystrtod_of_nan hcons hc]
  split_ifs with ha hn
  · obtain ⟨d, e, rest, rfl⟩ : ∃ d e rest', rest = d :: e :: rest' := by
      rcases rest with - | ⟨d, - | ⟨e, rest⟩⟩
      · exact absurd ha (by decide)
      · exact absurd (show '\x00' = 'n' ∨ '\x00' = 'N' from hn) (by decide)
      · exact ⟨d, e, rest, rfl⟩
    refine iff_of_true (.inl ⟨.nan s [c, d, e] ⟨c, d, e, rfl, hc, ha, hn⟩, ?_, rfl, ?_⟩) ?_
    · show org = s.text ++ [c, d, e] ++ rest
      rw [horg, List.append_assoc]
      rfl
    · intro n hpre
      obtain ⟨d', e', rest', heq, -, -, hlen⟩ := hnan n hpre
      obtain ⟨rfl, htail⟩ := List.cons.inj heq
      rw [← (List.cons.inj htail).1] at hlen
      exact hlen.le
    · rintro ⟨c', d', rest', heq, -, -, ⟨m, hm⟩, -⟩
      obtain ⟨-, rfl⟩ := List.cons.inj (List.cons.inj heq).2
      exact Mantissa.not_prefix_of_nan hn hm
  · obtain ⟨d, rest, rfl⟩ : ∃ d rest', rest = d :: rest' := by
      rcases rest with - | ⟨d, rest⟩
      · exact absurd ha (by decide)
      · exact ⟨d, rest, rfl⟩
    have hnone : ∀ n : Numeral, ¬n.text <+: org := by
      intro n hpre
      obtain ⟨d', e, rest', heq, -, he, -⟩ := hnan n hpre
      rw [(List.cons.inj heq).2] at hn
      exact hn he
    rcases exists_magnitude (K := K) org (readSign org).1 rest with
      ⟨htail, hgiven⟩ | ⟨m, e, behind, hm, hread, hpoint, hempty⟩
    · refine iff_of_true (.inr ⟨htail, hnone⟩) ?_
      rintro ⟨c', d', rest', heq, -, -, ⟨m, hpre⟩, hpoint, hempty⟩
      obtain ⟨-, rfl⟩ := List.cons.inj (List.cons.inj heq).2
      rcases hgiven with h | h | h
      · exact h m hpre
      · exact hpoint h
      · exact hempty h
    · refine iff_of_false ?_ fun h ↦ h ⟨c, d, rest, rfl, hc, ha, ⟨m, ?_⟩, hpoint, hempty⟩
      · rintro (⟨n, heq, -⟩ | ⟨htail, -⟩)
        · exact hnone n ⟨_, heq.symm⟩
        · have hlen := congrArg List.length (hm.text_eq)
          have horg := congrArg List.length horg
          rw [show behind = org from (congrArg Prod.snd hread).symm.trans htail] at hlen
          simp only [List.length_append, List.length_cons] at hlen horg
          omega
      · rw [hm.text_eq, List.append_assoc]
        exact List.prefix_append _ _
  · refine iff_of_true (.inr ⟨rfl, fun n hpre ↦ ?_⟩) ?_
    · obtain ⟨d, e, rest', rfl, hd, -⟩ := hnan n hpre
      exact ha hd
    · rintro ⟨c', d, rest', heq, -, hd, -⟩
      rw [(List.cons.inj heq).2] at ha
      exact ha hd

/-- The longest numeral is read exactly when the number behind the sign neither ends with its point
nor with the mark of an exponent, and no `na` is before it. -/
theorem readsLongest_mystrtod_iff (org : Text) :
    ReadsLongest org (mystrtod (K := K) org) ↔
      ¬TrailingPoint (readSign org).2 ∧ ¬EmptyExponent (readSign org).2 ∧
        ¬PartialNan (readSign org).2 := by
  by_cases hnan : ∃ c rest, (readSign org).2 = c :: rest ∧ (c = 'n' ∨ c = 'N')
  · obtain ⟨c, rest, hcons, hc⟩ := hnan
    rw [readsLongest_iff_not_partialNan hcons hc, hcons]
    refine ⟨fun h ↦ ⟨fun hpoint ↦ ?_, fun hempty ↦ ?_, h⟩, fun h ↦ h.2.2⟩
    · obtain ⟨m, hm⟩ := Mantissa.prefix_of_trailingPoint hpoint
      exact Mantissa.not_prefix_of_nan hc hm
    · obtain ⟨m, hm⟩ := Mantissa.prefix_of_emptyExponent hempty
      exact Mantissa.not_prefix_of_nan hc hm
  · have hne : ∀ c rest, (readSign org).2 = c :: rest → ¬(c = 'n' ∨ c = 'N') :=
      fun c rest hcons hc ↦ hnan ⟨c, rest, hcons, hc⟩
    rw [mystrtod_of_ne org hne, readsLongest_readMagnitude_iff org hne]
    refine and_congr_right fun _ ↦ (and_iff_left ?_).symm
    rintro ⟨c, d, rest, heq, hc, -⟩
    exact hne c _ heq hc

end Result

/-- `1.` is a numeral, and so is the `1` of `1e`, but nothing is read. Of `na5`, which does not
start with a numeral, everything is read. -/
theorem mystrtod_gives_up :
    ¬ReadsLongest ['1', '.'] (mystrtod (K := ℚ) ['1', '.']) ∧
      ¬ReadsLongest ['1', 'e'] (mystrtod (K := ℚ) ['1', 'e']) ∧
      (mystrtod (K := ℚ) ['n', 'a', '5']).2 = [] := by
  have hone : ∀ rest, ∃ n : Numeral, n.text <+: '1' :: rest := fun rest ↦
    ⟨.number .none ⟨['1'], none, List.forall_mem_singleton.2 rfl, (by rintro _ ⟨⟩),
      .inl (by decide)⟩ none, rest, rfl⟩
  obtain ⟨n, hn⟩ := hone ['.']
  obtain ⟨n', hn'⟩ := hone ['e']
  exact ⟨not_readsLongest hn (by decide +kernel), not_readsLongest hn' (by decide +kernel),
    by decide +kernel⟩

end OpenHRP.EasyScanner
