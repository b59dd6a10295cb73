import OpenHRP.Util.ScannerSafety
import Mathlib.Data.Nat.Count

/-!
# Line breaks in a text

A line break is a line feed, a carriage return, or a carriage return that a line feed completes. It
lies before a position when all of it does, so that it counts where its last character is.

The scanner takes line breaks by `lineFeed`, one at a time. Words, numbers behind their white space
and strings within a line have none (`lineBreaks_dropWhile`, `lineBreaks_strtol`,
`lineBreaks_mystrtod`, `lineBreaks_closingQuoteInLine`). For blanks and strings of several lines,
`blanksCounted` and `quoteCounted` say that every line break is taken so.
-/

namespace OpenHRP.EasyScanner

variable {K : Type*}

/-! ### Line breaks -/

/-- A line break ends with the first character of the text: a line feed, or a carriage return that
no line feed completes. -/
def EndsBreak : Text → Prop
  | [] => False
  | c :: text => c = '\n' ∨ c = '\r' ∧ peek text ≠ '\n'

instance decidableEndsBreak : ∀ text, Decidable (EndsBreak text)
  | [] => inferInstanceAs (Decidable False)
  | c :: text => inferInstanceAs (Decidable (c = '\n' ∨ c = '\r' ∧ peek text ≠ '\n'))

/-- The number of line breaks before a position. -/
def lineBreaksBefore (textBuf : Text) (pos : ℕ) : ℕ :=
  Nat.count (fun i ↦ EndsBreak (textBuf.drop i)) pos

/-- The number of line breaks of a text. -/
def lineBreaks (text : Text) : ℕ :=
  lineBreaksBefore text text.length

theorem lineBreaks_append (l text : Text) :
    lineBreaks (l ++ text) = lineBreaksBefore (l ++ text) l.length + lineBreaks text := by
  rw [lineBreaks, lineBreaksBefore, List.length_append, Nat.count_add]
  simp only [List.drop_length_add_append]
  rfl

theorem lineBreaks_cons (c : Char) (text : Text) :
    lineBreaks (c :: text) = (if EndsBreak (c :: text) then 1 else 0) + lineBreaks text := by
  refine (lineBreaks_append [c] text).trans (congrArg (· + _) ?_)
  rw [lineBreaksBefore, List.length_singleton, Nat.count_one]
  rfl

theorem lineBreaks_le_cons (c : Char) (text : Text) : lineBreaks text ≤ lineBreaks (c :: text) := by
  rw [lineBreaks_cons]
  exact Nat.le_add_left _ _

variable {text : Text} {c : Char}

theorem lineBreaks_cons_eq_iff :
    lineBreaks (c :: text) = lineBreaks text ↔ ¬EndsBreak (c :: text) := by
  rw [lineBreaks_cons]
  split <;> simp [*]

variable {text rest : Text}

theorem lineBreaks_le_of_suffix (h : rest <:+ text) : lineBreaks rest ≤ lineBreaks text := by
  obtain ⟨l, rfl⟩ := h
  rw [lineBreaks_append]
  exact Nat.le_add_left _ _

theorem not_endsBreak (hn : c ≠ '\n') (hr : c ≠ '\r') (text : Text) : ¬EndsBreak (c :: text) := by
  rintro (rfl | ⟨rfl, -⟩)
  · exact hn rfl
  · exact hr rfl

/-- An ordinary character is no line break. -/
theorem lineBreaks_cons_of_ne (hn : c ≠ '\n') (hr : c ≠ '\r') (text : Text) :
    lineBreaks (c :: text) = lineBreaks text :=
  lineBreaks_cons_eq_iff.2 (not_endsBreak hn hr text)

/-- Taking characters that no line break has. -/
theorem lineBreaks_dropWhile {p : Char → Bool} (hn : p '\n' = false) (hr : p '\r' = false)
    (text : Text) : lineBreaks (text.dropWhile p) = lineBreaks text := by
  induction text with
  | nil => rfl
  | cons c text ih =>
    rw [List.dropWhile_cons]
    split
    · rename_i hc
      rw [ih, lineBreaks_cons_of_ne]
      · rintro rfl
        rw [hn] at hc
        cases hc
      · rintro rfl
        rw [hr] at hc
        cases hc
    · rfl

theorem ne_of_lineFeed (h : lineFeed (c :: text) = none) : c ≠ '\n' ∧ c ≠ '\r' := by
  refine ⟨?_, ?_⟩
  · rintro rfl
    cases h
  · rintro rfl
    rw [lineFeed_cr] at h
    cases h

theorem lineBreaks_of_lineFeed (h : lineFeed text = some rest) :
    lineBreaks text = lineBreaks rest + 1 := by
  obtain ⟨c, text, rfl, -⟩ := lineFeed_cons h
  by_cases hn : c = '\n'
  · subst hn
    obtain rfl := Option.some.inj h
    rw [lineBreaks_cons, if_pos (.inl rfl), Nat.add_comm]
  by_cases hr : c = '\r'
  · subst hr
    rw [lineFeed_cr, Option.some_inj] at h
    subst h
    rcases text with - | ⟨d, text⟩
    · rfl
    rw [behindReturn]
    split
    · rename_i hd
      subst hd
      rw [lineBreaks_cons_eq_iff.2, lineBreaks_cons, if_pos (.inl rfl), Nat.add_comm]
      rintro (h | h)
      · cases h
      · exact h.2 rfl
    · rename_i hd
      rw [lineBreaks_cons, if_pos (.inr ⟨rfl, hd⟩), Nat.add_comm]
  · rw [lineFeed_of_ne hn hr] at h
    cases h

/-! ### Skipping blanks -/

/-- No line break is skipped as a white-space character or as the start of a comment. -/
def blanksCounted (st : Settings) : Blank → Text → Bool
  | _, [] => true
  | blank, c :: text =>
    if blank = .feed ∧ c = '\n' then blanksCounted st .space text
    else if blank = .comment ∧ c ≠ '\r' ∧ c ≠ '\n' then
      c = '\x00' || blanksCounted st .comment text
    else if blank ≠ .comment ∧ c ∈ st.whiteSpaceChars then
      !EndsBreak (c :: text) && blanksCounted st .space text
    else if blank ≠ .comment ∧ some c = st.commentChar then
      !EndsBreak (c :: text) && blanksCounted st .comment text
    else if st.isLineOriented then true
    else if c = '\n' then blanksCounted st .space text
    else if c = '\r' then blanksCounted st .feed text
    else true

theorem blanksCounted_feed (st : Settings) (text : Text) :
    blanksCounted st .feed text = blanksCounted st .space (behindReturn text) := by
  rcases text with - | ⟨c, text⟩
  · rfl
  · by_cases hc : c = '\n' <;> simp [blanksCounted, behindReturn, hc]

/-- Behind white space and comments, the blanks go on behind a line feed if lines do not matter. -/
def FeedCounted (st : Settings) (text : Text) : Prop :=
  st.isLineOriented = false → ∀ rest, lineFeed text = some rest →
    blanksCounted st .space rest = true

variable {text : Text}

theorem feedCounted_cons {st : Settings} {c : Char}
    (h : (if st.isLineOriented then true
      else if c = '\n' then blanksCounted st .space text
      else if c = '\r' then blanksCounted st .feed text
      else true) = true) : FeedCounted st (c :: text) := by
  intro hline rest hfeed
  rw [hline, if_neg Bool.false_ne_true] at h
  by_cases hn : c = '\n'
  · subst hn
    obtain rfl := Option.some.inj hfeed
    rwa [if_pos rfl] at h
  by_cases hr : c = '\r'
  · subst hr
    rw [lineFeed_cr, Option.some_inj] at hfeed
    rwa [if_neg hn, if_pos rfl, blanksCounted_feed, hfeed] at h
  · rw [lineFeed_of_ne hn hr] at hfeed
    cases hfeed

theorem lineBreaks_skipToLineEnd (text : Text) :
    lineBreaks (skipToLineEnd text) = lineBreaks text := by
  induction text with
  | nil => rfl
  | cons c text ih =>
    rw [skipToLineEnd]
    split
    · rfl
    · rename_i hc
      simp only [Bool.or_eq_true, decide_eq_true_eq, not_or] at hc
      rw [ih, lineBreaks_cons_of_ne hc.1.2 hc.1.1]

variable {st : Settings}

theorem feedCounted_skipToLineEnd (h : blanksCounted st .comment text = true) :
    FeedCounted st (skipToLineEnd text) := by
  induction text with
  | nil => intro _ rest hfeed; cases hfeed
  | cons c text ih =>
    rw [skipToLineEnd]
    by_cases hfeed : c = '\r' ∨ c = '\n'
    · rw [if_pos (by rcases hfeed with rfl | rfl <;> rfl)]
      refine feedCounted_cons ?_
      rcases hfeed with rfl | rfl <;> simpa [blanksCounted] using h
    obtain ⟨hr, hn⟩ := not_or.1 hfeed
    by_cases h0 : c = '\x00'
    · subst h0
      intro _ rest hrest
      cases hrest
    · rw [if_neg (by simp [hr, hn, h0])]
      exact ih (by simpa [blanksCounted, hr, hn, h0] using h)

theorem blanksCounted_dropWhile (h : blanksCounted st .space text = true) :
    lineBreaks (text.dropWhile (· ∈ st.whiteSpaceChars)) = lineBreaks text ∧
      blanksCounted st .space (text.dropWhile (· ∈ st.whiteSpaceChars)) = true := by
  induction text with
  | nil => exact ⟨rfl, rfl⟩
  | cons c text ih =>
    by_cases hc : c ∈ st.whiteSpaceChars
    · rw [List.dropWhile_cons_of_pos (by simpa using hc)]
      obtain ⟨hbreak, h⟩ : ¬EndsBreak (c :: text) ∧ blanksCounted st .space text = true := by
        simpa [blanksCounted, hc] using h
      rw [lineBreaks_cons_eq_iff.2 hbreak]
      exact ih h
    · rw [List.dropWhile_cons_of_neg (by simpa using hc)]
      exact ⟨rfl, h⟩

/-- What the first white space and comment hide has no line break. -/
theorem blanksCounted_skipComment (h : blanksCounted st .space text = true) :
    let rest := skipComment st.commentChar (text.dropWhile (· ∈ st.whiteSpaceChars))
    lineBreaks rest = lineBreaks text ∧ FeedCounted st rest := by
  obtain ⟨hwhite, h⟩ := blanksCounted_dropWhile h
  rw [← hwhite]
  have hhead := List.head?_dropWhile_not (fun c ↦ decide (c ∈ st.whiteSpaceChars)) text
  rcases htext : text.dropWhile (· ∈ st.whiteSpaceChars) with - | ⟨c, rest⟩
  · exact ⟨rfl, fun _ _ hfeed ↦ by cases hfeed⟩
  rw [htext] at h hhead
  have hc : c ∉ st.whiteSpaceChars := by simpa using hhead
  rw [skipComment]
  dsimp only
  split
  · rename_i hcomment
    obtain ⟨hbreak, h⟩ : ¬EndsBreak (c :: rest) ∧ blanksCounted st .comment rest = true := by
      simpa [blanksCounted, hc, hcomment] using h
    rw [lineBreaks_skipToLineEnd, lineBreaks_cons_eq_iff.2 hbreak]
    exact ⟨rfl, feedCounted_skipToLineEnd h⟩
  · rename_i hcomment
    exact ⟨rfl, feedCounted_cons (by simpa [blanksCounted, hc, hcomment] using h)⟩

/-- What `skipSpace` skips it counts, and then there is no line feed if lines do not matter. -/
theorem skipSpaceLoop_lineBreaks {fuel : ℕ} {n n' : ℤ}
    (hloop : skipSpaceLoop st fuel text n = some (rest, n'))
    (h : blanksCounted st .space text = true) :
    n' + lineBreaks rest = n + lineBreaks text ∧
      (st.isLineOriented = false → lineFeed rest = none) := by
  induction fuel generalizing text n with
  | zero => cases hloop
  | succ fuel ih =>
    obtain ⟨hrest, hfeed⟩ := blanksCounted_skipComment h
    rw [skipSpaceLoop, skipWhite_eq] at hloop
    split at hloop
    · cases hloop
    rename_i _ text' htext
    split at htext
    · cases htext
    obtain rfl := Option.some.inj htext
    rw [← hrest]
    rcases hline : st.isLineOriented with - | -
    · rw [hline, if_neg Bool.false_ne_true] at hloop
      split at hloop
      · rename_i next hnext
        obtain ⟨hsum, hnone⟩ := ih hloop (hfeed hline _ hnext)
        rw [hsum, lineBreaks_of_lineFeed hnext]
        refine ⟨by push_cast; omega, fun _ ↦ hnone hline⟩
      · rename_i hnone
        cases hloop
        exact ⟨rfl, fun _ ↦ hnone⟩
    · rw [hline, if_pos rfl] at hloop
      cases hloop
      exact ⟨rfl, Bool.noConfusion⟩

/-! ### Numbers -/

theorem lineBreaks_readSign (text : Text) : lineBreaks (readSign text).2 = lineBreaks text := by
  unfold readSign
  split
  · exact (lineBreaks_cons_of_ne (by decide) (by decide) _).symm
  · exact (lineBreaks_cons_of_ne (by decide) (by decide) _).symm
  · rfl

theorem lineBreaks_numberBase (text : Text) : lineBreaks (numberBase text).2 = lineBreaks text := by
  have hzero : ∀ {x} (rest : Text), x ≠ '\n' → x ≠ '\r' →
      lineBreaks ('0' :: x :: rest) = lineBreaks rest := fun rest hn hr ↦ by
    rw [lineBreaks_cons_of_ne (by decide) (by decide), lineBreaks_cons_of_ne hn hr]
  unfold numberBase
  split
  · split
    · exact (hzero _ (by decide) (by decide)).symm
    · rfl
  · split
    · exact (hzero _ (by decide) (by decide)).symm
    · rfl
  · rfl
  · rfl

theorem numberBase_le (text : Text) : (numberBase text).1 ≤ 16 := by
  unfold numberBase
  split
  · split
    · exact le_rfl
    · exact Nat.le_of_ble_eq_true rfl
  · split
    · exact le_rfl
    · exact Nat.le_of_ble_eq_true rfl
  · exact Nat.le_of_ble_eq_true rfl
  · exact Nat.le_of_ble_eq_true rfl

theorem drop_length_takeWhile (p : Char → Bool) (text : Text) :
    text.drop (text.takeWhile p).length = text.dropWhile p := by
  conv_lhs => rw [← List.takeWhile_append_dropWhile (p := p) (l := text)]
  exact List.drop_left' (by simp)

/-- `strtol` takes no line break behind the white space. -/
theorem lineBreaks_strtol (text : Text) :
    (strtol text).2 = text ∨
      lineBreaks (strtol text).2 = lineBreaks (text.dropWhile isspace) := by
  rw [strtol]
  dsimp only
  set number := readSign (text.dropWhile isspace)
  have hbase : ∀ c : Char, digitValue c = 16 →
      decide (digitValue c < (numberBase number.2).1) = false := fun c hc ↦ by
    simp [hc, numberBase_le]
  split
  · exact .inl rfl
  · right
    rw [drop_length_takeWhile, lineBreaks_dropWhile (hbase '\n' (by decide))
      (hbase '\r' (by decide)), lineBreaks_numberBase, lineBreaks_readSign]

theorem lineBreaks_drop_one (h : peek text = c) (h0 : c ≠ '\x00') (hn : c ≠ '\n') (hr : c ≠ '\r') :
    lineBreaks (text.drop 1) = lineBreaks text := by
  obtain ⟨rest, rfl⟩ := eq_cons_of_peek h0 h
  exact (lineBreaks_cons_of_ne hn hr rest).symm

theorem lineBreaks_cons_of_isdigit (h : isdigit c = true) (text : Text) :
    lineBreaks (c :: text) = lineBreaks text := by
  refine lineBreaks_cons_of_ne ?_ ?_ text
  · rintro rfl
    cases h
  · rintro rfl
    cases h

section Double

variable [Field K]

theorem lineBreaks_readDigits (value : K) (text : Text) :
    lineBreaks (readDigits value text).2 = lineBreaks text := by
  induction text generalizing value with
  | nil => rfl
  | cons c text ih =>
    rw [readDigits]
    split
    · rename_i hc
      rw [ih, lineBreaks_cons_of_isdigit hc]
    · rfl

theorem lineBreaks_readDecimals (value small : K) (text : Text) :
    lineBreaks (readDecimals value small text).2 = lineBreaks text := by
  induction text generalizing value small with
  | nil => rfl
  | cons c text ih =>
    rw [readDecimals]
    split
    · rename_i hc
      rw [ih, lineBreaks_cons_of_isdigit hc]
    · rfl

theorem lineBreaks_readExponent (p : ℕ) (text : Text) :
    lineBreaks (readExponent p text).2 = lineBreaks text := by
  induction text generalizing p with
  | nil => rfl
  | cons c text ih =>
    rw [readExponent]
    split
    · rename_i hc
      rw [ih, lineBreaks_cons_of_isdigit hc]
    · rfl

theorem lineBreaks_finishDouble {org text : Text} (h : lineBreaks text = lineBreaks org)
    (negative valid : Bool) (value : K) :
    lineBreaks (finishDouble org negative valid value text).2 = lineBreaks org := by
  rw [finishDouble]
  dsimp only
  split
  · exact h
  · rfl

theorem lineBreaks_exponent (h : (peek text = 'e' || peek text = 'E') = true) :
    lineBreaks (readExponent 0 (readSign (text.drop 1)).2).2 = lineBreaks text := by
  rw [lineBreaks_readExponent, lineBreaks_readSign]
  rw [Bool.or_eq_true, decide_eq_true_eq, decide_eq_true_eq] at h
  obtain h | h := h
  · exact lineBreaks_drop_one h (by decide) (by decide) (by decide)
  · exact lineBreaks_drop_one h (by decide) (by decide) (by decide)

theorem lineBreaks_readMagnitude {org text : Text} (h : lineBreaks text = lineBreaks org)
    (negative : Bool) :
    lineBreaks (readMagnitude (K := K) org negative text).2 = lineBreaks org := by
  have hdigits := (lineBreaks_readDigits (0 : K) text).trans h
  unfold readMagnitude
  dsimp only
  split
  · rename_i rest hpoint
    rw [hpoint, lineBreaks_cons_of_ne (by decide) (by decide)] at hdigits
    have hdecimals := fun value small : K ↦
      (lineBreaks_readDecimals value small rest).trans hdigits
    split
    · rename_i he
      have hexponent := lineBreaks_exponent (Bool.and_eq_true_iff.1 he).2
      exact lineBreaks_finishDouble (hexponent.trans (hdecimals _ _)) _ _ _
    · exact lineBreaks_finishDouble (hdecimals _ _) _ _ _
  · split
    · rename_i he
      have hexponent := lineBreaks_exponent (Bool.and_eq_true_iff.1 he).2
      exact lineBreaks_finishDouble (hexponent.trans hdigits) _ _ _
    · exact lineBreaks_finishDouble hdigits _ _ _

/-- `mystrtod` takes no line break. -/
theorem lineBreaks_mystrtod (text : Text) :
    lineBreaks (mystrtod (K := K) text).2 = lineBreaks text := by
  have hsign := lineBreaks_readSign text
  have hdrop : ∀ {c d} {rest : Text}, (peek rest = c ∨ peek rest = d) → c.isAlpha → d.isAlpha →
      lineBreaks (rest.drop 1) = lineBreaks rest := by
    rintro c d rest (h | h) hc hd
    · refine lineBreaks_drop_one h ?_ ?_ ?_ <;> (rintro rfl; cases hc)
    · refine lineBreaks_drop_one h ?_ ?_ ?_ <;> (rintro rfl; cases hd)
  unfold mystrtod
  dsimp only
  split
  · rename_i hsigned
    rw [hsigned] at hsign
    exact lineBreaks_readMagnitude hsign _
  · rename_i c rest hsigned
    rw [hsigned] at hsign
    split
    · rename_i hc
      rw [lineBreaks_cons_of_ne (by rintro rfl; simp at hc) (by rintro rfl; simp at hc)] at hsign
      split
      · rename_i ha
        have ha := (hdrop (by simpa using ha) rfl rfl).trans hsign
        split
        · rename_i hn
          exact (hdrop (by simpa using hn) rfl rfl).trans ha
        · exact lineBreaks_readMagnitude ha _
      · rfl
    · exact lineBreaks_readMagnitude hsign _

end Double

/-! ### Quoted strings and lines -/

/-- A text behind an opening quote, read as by `overruns`: if there is a closing quote, no line
break is taken as the character behind a line feed, and if there is none, no line feed is read. -/
def quoteCounted (quoteChar : Option Char) (feedRead : Bool) : Piece → Text → Bool
  | piece, [] => piece ≠ .other || !feedRead
  | .other, c :: text =>
    if c = '\x00' then !feedRead
    else if c = '\n' then quoteCounted quoteChar true .lineFeed text
    else if c = '\r' then quoteCounted quoteChar true .carriageReturn text
    else some c = quoteChar || quoteCounted quoteChar feedRead .other text
  | .lineFeed, c :: text =>
    !EndsBreak (c :: text) && (some c = quoteChar || quoteCounted quoteChar true .other text)
  | .carriageReturn, c :: text =>
    if c = '\n' then quoteCounted quoteChar true .lineFeed text
    else !EndsBreak (c :: text) && (some c = quoteChar || quoteCounted quoteChar true .other text)

theorem lineBreaks_closingQuoteInLine {quoteChar : Option Char} {text rest : Text}
    (h : closingQuoteInLine quoteChar text = some rest) :
    lineBreaks (rest.drop 1) = lineBreaks text := by
  induction text with
  | nil => cases h
  | cons c text ih =>
    rw [closingQuoteInLine] at h
    split at h
    · cases h
    · rename_i hc
      simp only [Bool.or_eq_true, decide_eq_true_eq, not_or] at hc
      rw [lineBreaks_cons_of_ne hc.1.2 hc.1.1]
      split at h
      · obtain rfl := Option.some.inj h
        rfl
      · exact ih h

theorem quoteCounted_of_lineFeed (quoteChar : Option Char) (feedRead : Bool) {text rest : Text}
    (h : lineFeed text = some rest) :
    quoteCounted quoteChar feedRead .other text = quoteCounted quoteChar true .lineFeed rest := by
  obtain ⟨c, text, rfl, -⟩ := lineFeed_cons h
  by_cases hn : c = '\n'
  · subst hn
    obtain rfl := Option.some.inj h
    simp [quoteCounted]
  by_cases hr : c = '\r'
  · subst hr
    rw [lineFeed_cr, Option.some_inj] at h
    subst h
    rcases text with - | ⟨d, text⟩
    · simp [quoteCounted, behindReturn]
    · by_cases hd : d = '\n' <;> simp [quoteCounted, behindReturn, hd]
  · rw [lineFeed_of_ne hn hr] at h
    cases h

theorem quoteCounted_of_ne (quoteChar : Option Char) (feedRead : Bool) {c : Char}
    (h0 : c ≠ '\x00') (h : lineFeed (c :: text) = none) :
    quoteCounted quoteChar feedRead .other (c :: text) =
      (some c = quoteChar || quoteCounted quoteChar feedRead .other text) := by
  obtain ⟨hn, hr⟩ := ne_of_lineFeed h
  rw [quoteCounted, if_neg h0, if_neg hn, if_neg hr]

/-- The number `n'` of the line where the loop for the closing quote ends, against the line breaks
it has passed. Without a closing quote it has passed none, as the scanner goes back. -/
def QuoteEnds (counted : Prop) (feedRead : Bool) (text : Text) (n : ℤ) : Option Text → ℤ → Prop
  | some rest, n' =>
    n' + lineBreaks (rest.drop 1) ≤ n + lineBreaks text ∧
      (counted ↔ n' + lineBreaks (rest.drop 1) = n + lineBreaks text)
  | none, n' => n ≤ n' ∧ (counted ↔ feedRead = false ∧ n' = n)

theorem closingQuote_lineBreaks {quoteChar : Option Char} {fuel : ℕ} {n n' : ℤ}
    {found : Option Text} (feedRead : Bool)
    (h : closingQuote quoteChar fuel text n = some (found, n')) (hfound : found ≠ some []) :
    QuoteEnds (quoteCounted quoteChar feedRead .other text = true) feedRead text n found n' := by
  induction fuel generalizing text n feedRead with
  | zero => cases h
  | succ fuel ih =>
    rcases text with - | ⟨c, text⟩
    · cases h
      exact ⟨le_rfl, by simp [quoteCounted]⟩
    by_cases h0 : c = '\x00'
    · subst h0
      cases h
      exact ⟨le_rfl, by simp [quoteCounted]⟩
    rw [closingQuote, peek, List.headD_cons, if_neg h0] at h
    rcases hfeed : lineFeed (c :: text) with - | rest
    · rw [hfeed] at h
      dsimp only at h
      rw [quoteCounted_of_ne quoteChar feedRead h0 hfeed]
      obtain ⟨hn, hr⟩ := ne_of_lineFeed hfeed
      have hcons := lineBreaks_cons_of_ne hn hr text
      split at h
      · rename_i hquote
        cases h
        have hsum : n' + (lineBreaks text : ℤ) = n' + lineBreaks (c :: text) := by rw [hcons]
        exact ⟨hsum.le, iff_of_true (by simpa using .inl hquote) hsum⟩
      · rename_i hquote
        have hquote : some c ≠ quoteChar := hquote
        have h : closingQuote quoteChar fuel text n = some (found, n') := h
        have ih := ih feedRead h
        rcases found with - | rest
        · simpa [QuoteEnds, hquote] using ih
        · simpa [QuoteEnds, hquote, hcons] using ih
    · rw [hfeed] at h
      dsimp only at h
      rw [quoteCounted_of_lineFeed quoteChar feedRead hfeed]
      have hbreak := lineBreaks_of_lineFeed hfeed
      rcases rest with - | ⟨d, rest⟩
      · split at h
        · cases h
          exact absurd rfl hfound
        · cases h
      · have hle := lineBreaks_le_cons d rest
        split at h
        · rename_i hquote
          have hquote : some d = quoteChar := hquote
          cases h
          have hcounted : quoteCounted quoteChar true .lineFeed (d :: rest) = true ↔
              lineBreaks (d :: rest) = lineBreaks rest := by
            simp [quoteCounted, hquote, lineBreaks_cons_eq_iff]
          rw [QuoteEnds, hcounted, List.drop_one, List.tail_cons, hbreak]
          omega
        · rename_i hquote
          have hquote : some d ≠ quoteChar := hquote
          have h : closingQuote quoteChar fuel rest (n + 1) = some (found, n') := h
          have ih := ih true h
          have hcounted : quoteCounted quoteChar true .lineFeed (d :: rest) = true ↔
              lineBreaks (d :: rest) = lineBreaks rest ∧
                quoteCounted quoteChar true .other rest = true := by
            simp [quoteCounted, hquote, lineBreaks_cons_eq_iff]
          rcases found with - | last
          · obtain ⟨hn, ih⟩ := ih
            refine ⟨by omega, iff_of_false (fun h ↦ ?_) fun h ↦ by omega⟩
            cases (ih.1 (hcounted.1 h).2).1
          · obtain ⟨hn, ih⟩ := ih
            rw [QuoteEnds, hcounted, ih, hbreak]
            omega

theorem skipLineLoop_lineBreaks (text : Text) :
    lineBreaks text =
      lineBreaks (skipLineLoop text).2 + if (skipLineLoop text).1 then 1 else 0 := by
  induction text with
  | nil => rfl
  | cons c text ih =>
    rw [skipLineLoop]
    rcases hfeed : lineFeed (c :: text) with - | rest
    · obtain ⟨hn, hr⟩ := ne_of_lineFeed hfeed
      dsimp only
      split
      · rfl
      · rw [lineBreaks_cons_of_ne hn hr]
        exact ih
    · exact lineBreaks_of_lineFeed hfeed

end OpenHRP.EasyScanner
