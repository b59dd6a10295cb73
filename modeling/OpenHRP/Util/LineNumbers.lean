import OpenHRP.Util.LineBreaks

/-!
# The line number of the scanner

The line number goes along with the pointer where an operation takes a line feed by itself. It goes
wrong where the pointer is put back and the number is not, which `checkLF` and a quoted string that
is not closed do, and where a line break is taken as an ordinary character: white space in front of
an integer, a character or string that is asked for, or the character behind a line feed in a quoted
string.

These are all the ways to get it wrong (`countsLines_iff`), unless a line break is set to be a white
space or comment character (`PlainBlanks.alongSome`).
-/

namespace OpenHRP.EasyScanner

variable {K : Type*}

/-! ### Counting lines -/

/-- The pointer is in the buffer, and the line number is right: without the offset, it is the number
of line breaks before the pointer. -/
def CountsLines (offset : ℤ) (s : Scanner K) : Prop :=
  Inside s ∧
    s.lineNumber - offset = lineBreaksBefore s.textBuf (s.textBuf.length - s.text.length)

/-- The line number and the line breaks that are still to come have the same sum. -/
def Keeps (s s' : Scanner K) : Prop :=
  s'.lineNumber + lineBreaks s'.text = s.lineNumber + lineBreaks s.text

variable {s : Scanner K}

theorem countsLines_iff_of_inside {offset : ℤ} (hs : Inside s) :
    CountsLines offset s ↔ s.lineNumber + lineBreaks s.text = offset + lineBreaks s.textBuf := by
  rw [CountsLines, and_iff_right hs]
  obtain ⟨l, hl⟩ := hs
  have hpos : s.textBuf.length - s.text.length = l.length := by
    rw [← hl, List.length_append, Nat.add_sub_cancel]
  have hsum := lineBreaks_append l s.text
  rw [hl] at hsum
  rw [hpos, hsum]
  push_cast
  omega

theorem Moves.keeps_iff {offset : ℤ} {s s' : Scanner K} (h : Moves s s')
    (hs : CountsLines offset s) : CountsLines offset s' ↔ Keeps s s' := by
  rw [countsLines_iff_of_inside (h.inside hs.1), h.textBuf, Keeps,
    (countsLines_iff_of_inside hs.1).1 hs]

/-- `setText`, with the offset that is added to the number of the line. -/
def Scanner.setText (s : Scanner K) (textBuf : Text) (offset : ℤ) : Scanner K :=
  { s with textBuf := textBuf, text := textBuf, lineNumber := offset }

theorem countsLines_setText (s : Scanner K) (textBuf : Text) (offset : ℤ) :
    CountsLines offset (s.setText textBuf offset) :=
  (countsLines_iff_of_inside (s := s.setText textBuf offset) List.suffix_rfl).2 rfl

/-! ### The operations -/

/-- The scanner `t` is the scanner `s` behind the blanks, whose line breaks it has counted. -/
structure Behind (s t : Scanner K) : Prop where
  settings : t.settings = s.settings
  text : t.text = behindBlank s
  keeps : Keeps s t
  lineFeed : s.settings.isLineOriented = false → lineFeed (behindBlank s) = none

theorem behind_of_bind {β : Type*} {f : Scanner K → Option β} {r : β}
    (h : (skipSpace s).bind f = some r)
    (hblank : blanksCounted s.settings .space s.text = true) : ∃ t, Behind s t ∧ f t = some r := by
  obtain ⟨-, hnone⟩ | ⟨-, n, hs⟩ := skipSpace_eq s
  · rw [hnone] at h
    cases h
  · rw [hs, Option.bind_some] at h
    obtain ⟨⟨text, n'⟩, hloop, ht⟩ := Option.map_eq_some_iff.1 hs
    obtain ⟨rfl, rfl⟩ : text = behindBlank s ∧ n' = n :=
      ⟨congrArg Scanner.text ht, congrArg Scanner.lineNumber ht⟩
    obtain ⟨hsum, hfeed⟩ := skipSpaceLoop_lineBreaks hloop hblank
    exact ⟨s.moveToLine (behindBlank s) n', ⟨rfl, rfl, hsum, hfeed⟩, h⟩

theorem behind_of_map {β : Type*} {f : Scanner K → β} {r : β} (h : (skipSpace s).map f = some r)
    (hblank : blanksCounted s.settings .space s.text = true) : ∃ t, Behind s t ∧ f t = r := by
  rw [Option.map_eq_bind] at h
  obtain ⟨t, ht, hr⟩ := behind_of_bind h hblank
  exact ⟨t, ht, Option.some.inj hr⟩

namespace Behind

variable {s t s' : Scanner K}

theorem keeps_iff (h : Behind s t) : Keeps s s' ↔ Keeps t s' := by
  rw [Keeps, Keeps, h.keeps]

theorem lineNumber_le (h : Behind s t) : s.lineNumber ≤ t.lineNumber := by
  have hle : lineBreaks t.text ≤ lineBreaks s.text :=
    lineBreaks_le_of_suffix (h.text ▸ skipBlank_suffix _ _ _)
  have hkeeps := h.keeps
  rw [Keeps] at hkeeps
  omega

end Behind

/-- An operation that skips blanks first and counts the line breaks that it takes then. -/
theorem keeps_of_map {s s' : Scanner K} {f : Scanner K → Scanner K}
    (h : (skipSpace s).map f = some s') (hblank : blanksCounted s.settings .space s.text = true)
    (hf : ∀ t, Keeps t (f t)) : Keeps s s' := by
  obtain ⟨t, ht, rfl⟩ := behind_of_map h hblank
  exact ht.keeps_iff.2 (hf t)

variable {t s' : Scanner K}

theorem keeps_of_lineBreaks (hline : s'.lineNumber = t.lineNumber)
    (htext : lineBreaks s'.text = lineBreaks t.text) : Keeps t s' := by
  rw [Keeps, hline, htext]

theorem keeps_iff_lineBreaks (hline : s'.lineNumber = t.lineNumber) :
    Keeps t s' ↔ lineBreaks s'.text = lineBreaks t.text := by
  rw [Keeps, hline]
  omega

variable {text : Text}

theorem keeps_wordFrom {t : Scanner K} (h : lineBreaks text = lineBreaks t.text) :
    Keeps t (wordFrom t text).2 := by
  rw [wordFrom]
  split
  · exact keeps_of_lineBreaks rfl h
  · exact keeps_of_lineBreaks rfl h

theorem keeps_readWord0 (t : Scanner K) : Keeps t (readWord0 t).2 :=
  keeps_wordFrom (lineBreaks_dropWhile (by decide) (by decide) _)

theorem keeps_readString0 (delimiterChar : Char) (t : Scanner K) :
    Keeps t (readString0 delimiterChar t).2 :=
  keeps_wordFrom (lineBreaks_dropWhile rfl rfl _)

theorem keeps_readLF0 (t : Scanner K) : Keeps t (readLF0 t).2 := by
  rw [readLF0]
  split
  · rename_i rest hfeed
    show t.lineNumber + 1 + (lineBreaks rest : ℤ) = _
    rw [lineBreaks_of_lineFeed hfeed]
    push_cast
    omega
  · rfl

theorem keeps_skipLine (s : Scanner K) : Keeps s (skipLine s).2 := by
  rw [Keeps, skipLineLoop_lineBreaks s.text]
  show (if (skipLineLoop s.text).1 then s.lineNumber + 1 else s.lineNumber) +
    (lineBreaks (skipLineLoop s.text).2 : ℤ) = _
  split <;> push_cast <;> omega

theorem keeps_advance_iff (h : advance t.text = some text)
    (hline : s'.lineNumber = t.lineNumber) (htext : s'.text = text) :
    Keeps t s' ↔ ¬EndsBreak t.text := by
  rw [keeps_iff_lineBreaks hline, htext]
  rcases ht : t.text with - | ⟨c, rest⟩
  · rw [ht] at h
    cases h
  · rw [ht] at h
    obtain rfl := Option.some.inj h
    rw [← lineBreaks_cons_eq_iff, eq_comm]

theorem not_endsBreak_of_peek {p : Char → Bool} (hn : p '\n' = false) (hr : p '\r' = false)
    (h : p (peek text) = true) : ¬EndsBreak text := by
  rcases text with - | ⟨c, text⟩
  · exact id
  · refine not_endsBreak ?_ ?_ text
    · rintro rfl
      exact Bool.false_ne_true (hn.symm.trans h)
    · rintro rfl
      exact Bool.false_ne_true (hr.symm.trans h)

/-- The text is no quoted string, or one that is counted. -/
def QuoteCounted (st : Settings) : Text → Prop
  | [] => True
  | c :: text => some c = st.quoteChar → ¬EndsBreak (c :: text) ∧
    (st.isLineOriented = false → quoteCounted st.quoteChar false .other text = true)

theorem advance_eq_drop {text rest : Text} (h : advance text = some rest) :
    text ≠ [] ∧ text.drop 1 = rest := by
  rcases text with - | ⟨c, text⟩
  · cases h
  · exact ⟨List.cons_ne_nil c text, Option.some.inj h⟩

theorem keeps_extractQuotedString (h : (extractQuotedString t).map Prod.snd = some s')
    (hquote : some (peek t.text) = t.settings.quoteChar)
    (hfeed : t.settings.isLineOriented = false → lineFeed t.text = none) :
    Keeps t s' ↔ QuoteCounted t.settings t.text := by
  rw [extractQuotedString] at h
  rcases htext : t.text with - | ⟨c, org⟩
  · rw [htext] at h
    cases h
  rw [htext] at h hquote hfeed
  have hquote : some c = t.settings.quoteChar := hquote
  rw [QuoteCounted, forall_prop_of_true hquote, Keeps, htext]
  rw [advance] at h
  dsimp only at h
  rcases hline : t.settings.isLineOriented with - | -
  · rw [hline, if_neg Bool.false_ne_true] at h
    obtain ⟨hn, hr⟩ := ne_of_lineFeed (hfeed hline)
    rw [and_iff_right (not_endsBreak hn hr org), forall_prop_of_true rfl,
      lineBreaks_cons_of_ne hn hr]
    split at h
    · cases h
    · rename_i n hfound
      cases h
      obtain ⟨hle, hcounted⟩ := closingQuote_lineBreaks false hfound (by simp)
      rw [hcounted, and_iff_right rfl]
      exact add_left_inj _
    · rename_i text n hfound
      obtain ⟨⟨_, _⟩, hrest, rfl⟩ := Option.map_eq_some_iff.1 h
      obtain ⟨rest, hadvance, hrest⟩ := Option.map_eq_some_iff.1 hrest
      cases hrest
      obtain ⟨hne, rfl⟩ := advance_eq_drop hadvance
      exact (closingQuote_lineBreaks false hfound (by simpa using hne)).2.symm
  · rw [hline, if_pos rfl] at h
    rw [and_iff_left Bool.noConfusion, ← lineBreaks_cons_eq_iff]
    split at h
    · cases h
    · rename_i n hfound
      obtain ⟨-, rfl⟩ := Prod.mk.inj (Option.some.inj hfound)
      cases h
      exact (add_right_inj _).trans (Nat.cast_inj.trans eq_comm)
    · rename_i text n hfound
      obtain ⟨hclosing, rfl⟩ := Prod.mk.inj (Option.some.inj hfound)
      obtain ⟨⟨_, _⟩, hrest, rfl⟩ := Option.map_eq_some_iff.1 h
      obtain ⟨rest, hadvance, hrest⟩ := Option.map_eq_some_iff.1 hrest
      cases hrest
      obtain ⟨-, rfl⟩ := advance_eq_drop hadvance
      rw [← lineBreaks_closingQuoteInLine hclosing]
      exact (add_right_inj _).trans (Nat.cast_inj.trans eq_comm)

theorem matchString_append {str : List Char} {text rest : Text}
    (h : matchString str text = some rest) : text = str ++ rest := by
  induction str generalizing text with
  | nil => exact Option.some.inj h
  | cons c str ih =>
    rcases text with - | ⟨d, text⟩
    · cases h
    · rw [matchString] at h
      split at h
      · rename_i hcd
        rw [ih h, hcd, List.cons_append]
      · cases h

/-- Taking the first characters of a text. -/
theorem lineBreaks_eq_iff_of_append {text l rest : Text} (h : text = l ++ rest) :
    lineBreaks rest = lineBreaks text ↔ lineBreaksBefore text l.length = 0 := by
  subst h
  rw [lineBreaks_append]
  omega

/-- An operation that skips blanks counts the line breaks in them. -/
def BlanksCounted (s : Scanner K) : Op → Prop
  | .readLine => True
  | .skipLine => True
  | _ => blanksCounted s.settings .space s.text = true

/-- An operation counts the line breaks that it takes behind the blanks, and no others. -/
def Counts (s : Scanner K) : Op → Prop
  | .checkLF => lineFeed (behindBlank s) = none
  | .readDouble => lineFeed (behindBlank s) = none
  | .readInt => lineFeed (behindBlank s) = none ∧ ((strtol (behindBlank s)).2 ≠ behindBlank s →
      lineBreaksBefore (behindBlank s) ((behindBlank s).takeWhile isspace).length = 0)
  | .readCharOf chara => peek (behindBlank s) = chara → ¬EndsBreak (behindBlank s)
  | .readStringOf str =>
    let str := str.takeWhile (· ≠ '\x00')
    matchString str (behindBlank s) ≠ none → lineBreaksBefore (behindBlank s) str.length = 0
  | .readQuotedString _ => QuoteCounted s.settings (behindBlank s)
  | .readToken =>
    let c := peek (behindBlank s)
    (isdigit c || c = '+' || c = '-') = false → isalpha c = false →
      QuoteCounted s.settings (behindBlank s)
  | _ => True

theorem quoteCounted_of_peek {st : Settings} (h : some (peek text) ≠ st.quoteChar) :
    QuoteCounted st text := by
  rcases text with - | ⟨c, text⟩
  · trivial
  · exact fun hc ↦ absurd hc h

variable {s s' : Scanner K}

theorem keeps_readQuotedString {allowNoQuotedWord : Bool}
    (h : (readQuotedString allowNoQuotedWord s).map Prod.snd = some s')
    (hblank : blanksCounted s.settings .space s.text = true) :
    Keeps s s' ↔ QuoteCounted s.settings (behindBlank s) := by
  rw [readQuotedString, Option.map_bind] at h
  obtain ⟨t, ht, h⟩ := behind_of_bind h hblank
  rw [ht.keeps_iff, ← ht.text, ← ht.settings]
  dsimp only [Function.comp] at h
  split at h
  · rename_i hquote
    exact keeps_extractQuotedString h hquote (ht.text ▸ ht.settings ▸ ht.lineFeed)
  · rename_i hquote
    refine iff_of_true ?_ (quoteCounted_of_peek hquote)
    split at h
    · cases h
      exact keeps_readString0 ' ' t
    · cases h
      rfl

theorem keeps_readStringOf {str : List Char} (h : (readStringOf str s).map Prod.snd = some s')
    (hblank : blanksCounted s.settings .space s.text = true) :
    Keeps s s' ↔ Counts s (.readStringOf str) := by
  rw [readStringOf, Option.map_map] at h
  obtain ⟨t, ht, rfl⟩ := behind_of_map h hblank
  rw [ht.keeps_iff, Counts, ← ht.text]
  dsimp only [Function.comp]
  split
  · rename_i rest hmatch
    rw [hmatch, forall_prop_of_true (by simp)]
    rw [← lineBreaks_eq_iff_of_append (matchString_append hmatch)]
    exact keeps_iff_lineBreaks rfl
  · rename_i hmatch
    exact iff_of_true rfl fun hne ↦ absurd hmatch hne

theorem keeps_readChar (h : (readChar s).map Prod.snd = some s')
    (hblank : blanksCounted s.settings .space s.text = true) : Keeps s s' := by
  rw [readChar, Option.map_bind] at h
  obtain ⟨t, ht, h⟩ := behind_of_bind h hblank
  rw [ht.keeps_iff]
  dsimp only [Function.comp] at h
  split at h
  · rename_i hgraph
    rw [Option.map_map] at h
    obtain ⟨text, hadvance, rfl⟩ := Option.map_eq_some_iff.1 h
    refine (keeps_advance_iff hadvance (by rfl) (by rfl)).2 ?_
    exact not_endsBreak_of_peek (by decide) (by decide) hgraph
  · cases h
    rfl

theorem keeps_readCharOf {chara : Char} (h : (readCharOf chara s).map Prod.snd = some s')
    (hblank : blanksCounted s.settings .space s.text = true) :
    Keeps s s' ↔ (peek (behindBlank s) = chara → ¬EndsBreak (behindBlank s)) := by
  rw [readCharOf, Option.map_bind] at h
  obtain ⟨t, ht, h⟩ := behind_of_bind h hblank
  rw [ht.keeps_iff, ← ht.text]
  dsimp only [Function.comp] at h
  split at h
  · rename_i hpeek
    rw [Option.map_map] at h
    obtain ⟨text, hadvance, rfl⟩ := Option.map_eq_some_iff.1 h
    rw [forall_prop_of_true hpeek]
    exact keeps_advance_iff hadvance rfl rfl
  · rename_i hpeek
    cases h
    exact iff_of_true rfl fun h ↦ absurd h hpeek

/-- `checkLF` goes back behind a line feed that it has counted. -/
theorem checkLF_cases {r : Bool × Scanner K} (h : checkLF s = some r)
    (hblank : blanksCounted s.settings .space s.text = true) :
    (∃ rest, lineFeed (behindBlank s) = some rest ∧ r.1 = true ∧ ¬Keeps s r.2) ∨
      lineFeed (behindBlank s) = none ∧ r.1 = false ∧ Behind s r.2 := by
  rw [checkLF, readLF, Option.map_map] at h
  obtain ⟨t, ht, rfl⟩ := behind_of_map h hblank
  rw [← ht.text]
  dsimp only [Function.comp]
  rcases hfeed : lineFeed t.text with - | rest
  · have hread : readLF0 t = (false, t) := by rw [readLF0, hfeed]
    rw [hread]
    exact .inr ⟨rfl, rfl, ht⟩
  · have hread : readLF0 t = (true, t.moveToLine rest (t.lineNumber + 1)) := by rw [readLF0, hfeed]
    rw [hread]
    refine .inl ⟨rest, rfl, rfl, fun hkeeps ↦ ?_⟩
    have hle := ht.lineNumber_le
    have hline : t.lineNumber + 1 + lineBreaks s.text = s.lineNumber + lineBreaks s.text := hkeeps
    omega

theorem keeps_checkLF (h : (checkLF s).map Prod.snd = some s')
    (hblank : blanksCounted s.settings .space s.text = true) :
    Keeps s s' ↔ lineFeed (behindBlank s) = none := by
  obtain ⟨r, hr, rfl⟩ := Option.map_eq_some_iff.1 h
  obtain ⟨rest, hfeed, -, hkeeps⟩ | ⟨hfeed, -, ht⟩ := checkLF_cases hr hblank
  · exact iff_of_false hkeeps (by simp [hfeed])
  · exact iff_of_true ht.keeps hfeed

theorem keeps_readInt (h : (readInt s).map Prod.snd = some s')
    (hblank : blanksCounted s.settings .space s.text = true) :
    Keeps s s' ↔ Counts s .readInt := by
  rw [readInt, Option.map_map] at h
  obtain ⟨r, hr, rfl⟩ := Option.map_eq_some_iff.1 h
  dsimp only [Function.comp]
  obtain ⟨rest, hfeed, htrue, hkeeps⟩ | ⟨hfeed, hfalse, ht⟩ := checkLF_cases hr hblank
  · rw [htrue, if_pos rfl]
    exact iff_of_false hkeeps fun h ↦ Option.some_ne_none rest (hfeed.symm.trans h.1)
  · rw [hfalse, if_neg Bool.false_ne_true, ht.keeps_iff, Counts, and_iff_right hfeed, ← ht.text]
    refine (keeps_iff_lineBreaks (by rfl)).trans ?_
    show lineBreaks (strtol r.2.text).2 = lineBreaks r.2.text ↔ _
    by_cases hread : (strtol r.2.text).2 = r.2.text
    · exact iff_of_true (congrArg lineBreaks hread) fun h ↦ absurd hread h
    · rw [forall_prop_of_true hread, (lineBreaks_strtol r.2.text).resolve_left hread]
      exact lineBreaks_eq_iff_of_append List.takeWhile_append_dropWhile.symm

theorem keeps_readLine (h : (readLine s).map Prod.snd = some s') :
    Keeps s s' := by
  rw [readLine] at h
  dsimp only at h
  split at h
  · rw [Option.map_map] at h
    obtain ⟨stop, -, rfl⟩ := Option.map_eq_some_iff.1 h
    dsimp only [Function.comp]
    split
    · exact keeps_skipLine s
    · exact keeps_skipLine s
  · cases h
    exact keeps_skipLine s

theorem keeps_readAlphabet (h : (readAlphabet t).map Prod.snd = some s')
    (halpha : isalpha (peek t.text) = true) : Keeps t s' := by
  rw [readAlphabet, Option.map_map] at h
  obtain ⟨text, hadvance, rfl⟩ := Option.map_eq_some_iff.1 h
  have hbreak : ¬EndsBreak t.text := not_endsBreak_of_peek (by decide) (by decide) halpha
  have htake : Keeps t (t.moveTo text) := (keeps_advance_iff hadvance (by rfl) (by rfl)).2 hbreak
  have hword : lineBreaks (text.dropWhile fun c ↦ isalnum c || c = '_') = lineBreaks t.text := by
    rw [lineBreaks_dropWhile (by decide) (by decide)]
    exact (keeps_iff_lineBreaks (by rfl)).1 htake
  dsimp only [Function.comp]
  split
  · exact keeps_of_lineBreaks rfl hword
  · exact keeps_of_lineBreaks rfl hword

section Field

variable [Field K]

theorem keeps_readDouble (h : (readDouble s).map Prod.snd = some s')
    (hblank : blanksCounted s.settings .space s.text = true) :
    Keeps s s' ↔ lineFeed (behindBlank s) = none := by
  rw [readDouble, Option.map_map] at h
  obtain ⟨r, hr, rfl⟩ := Option.map_eq_some_iff.1 h
  dsimp only [Function.comp]
  obtain ⟨rest, hfeed, htrue, hkeeps⟩ | ⟨hfeed, hfalse, ht⟩ := checkLF_cases hr hblank
  · rw [htrue, if_pos rfl]
    exact iff_of_false hkeeps (by simp [hfeed])
  · rw [hfalse, if_neg Bool.false_ne_true, ht.keeps_iff]
    exact iff_of_true (keeps_of_lineBreaks rfl (lineBreaks_mystrtod r.2.text)) hfeed

theorem isspace_of_isdigit {c : Char} (h : isdigit c = true) : isspace c = false := by
  have hle : 48 ≤ c.toNat := by
    rw [isdigit, Char.isDigit, Bool.and_eq_true, decide_eq_true_eq] at h
    exact UInt32.le_iff_toNat_le.1 h.1
  rw [isspace, Bool.or_eq_false_iff, Bool.and_eq_false_iff, decide_eq_false_iff_not,
    decide_eq_false_iff_not, decide_eq_false_iff_not]
  refine ⟨?_, .inr (by omega)⟩
  rintro rfl
  exact absurd h (by decide)

theorem isspace_of_number {c : Char} (h : (isdigit c || c = '+' || c = '-') = true) :
    isspace c = false := by
  rw [Bool.or_eq_true, Bool.or_eq_true, decide_eq_true_eq, decide_eq_true_eq] at h
  obtain (h | rfl) | rfl := h
  · exact isspace_of_isdigit h
  · decide
  · decide

theorem keeps_readNumber (h : (readNumber t).map Prod.snd = some s')
    (hnumber : (isdigit (peek t.text) || peek t.text = '+' || peek t.text = '-') = true) :
    Keeps t s' := by
  have hspace : t.text.dropWhile isspace = t.text := by
    rcases htext : t.text with - | ⟨c, rest⟩
    · rfl
    · rw [htext] at hnumber
      have hc : isspace c = false := isspace_of_number hnumber
      exact List.dropWhile_cons_of_neg (by simp [hc])
  rw [readNumber] at h
  dsimp only at h
  split at h
  · rename_i hread
    cases h
    refine keeps_of_lineBreaks rfl (((lineBreaks_strtol t.text).resolve_left hread).trans ?_)
    rw [hspace]
  split at h
  · cases h
    exact keeps_of_lineBreaks rfl (lineBreaks_mystrtod t.text)
  · rw [Option.map_map] at h
    obtain ⟨text, hadvance, rfl⟩ := Option.map_eq_some_iff.1 h
    refine (keeps_advance_iff hadvance (by rfl) (by rfl)).2 ?_
    exact not_endsBreak_of_peek (p := fun c ↦ isdigit c || c = '+' || c = '-')
      (by decide) (by decide) hnumber

theorem keeps_readToken (h : (readToken s).map Prod.snd = some s')
    (hblank : blanksCounted s.settings .space s.text = true) :
    Keeps s s' ↔ Counts s .readToken := by
  rw [readToken, Option.map_bind] at h
  obtain ⟨t, ht, h⟩ := behind_of_bind h hblank
  rw [ht.keeps_iff, Counts, ← ht.text, ← ht.settings]
  dsimp only [Function.comp] at h ⊢
  split at h
  · rename_i hnumber
    exact iff_of_true (keeps_readNumber h hnumber) fun h ↦ by simp [hnumber] at h
  rename_i hnumber
  rw [forall_prop_of_true (by simpa using hnumber)]
  split at h
  · rename_i halpha
    exact iff_of_true (keeps_readAlphabet h halpha) fun h ↦ by simp [halpha] at h
  rename_i halpha
  rw [forall_prop_of_true (by simpa using halpha)]
  split at h
  · rename_i hquote
    rw [Option.map_map] at h
    exact keeps_extractQuotedString h hquote (ht.text ▸ ht.settings ▸ ht.lineFeed)
  rename_i hquote
  refine iff_of_true ?_ (quoteCounted_of_peek hquote)
  split at h
  · rename_i hpunct
    rw [Option.map_map] at h
    obtain ⟨text, hadvance, rfl⟩ := Option.map_eq_some_iff.1 h
    refine (keeps_advance_iff hadvance (by rfl) (by rfl)).2 ?_
    exact not_endsBreak_of_peek (by decide) (by decide) hpunct
  · cases h
    exact keeps_readLF0 t

/-- An operation whose blanks are counted keeps the sum exactly when it counts what it takes. -/
theorem keeps_step {op : Op} (h : step s op = some s')
    (hblank : BlanksCounted s op) : Keeps s s' ↔ Counts s op := by
  cases op with
  | readToken => exact keeps_readToken h hblank
  | readQuotedString allowNoQuotedWord => exact keeps_readQuotedString h hblank
  | readStringOf str => exact keeps_readStringOf h hblank
  | readChar => exact iff_of_true (keeps_readChar h hblank) trivial
  | readCharOf chara => exact keeps_readCharOf h hblank
  | readInt => exact keeps_readInt h hblank
  | readDouble => exact keeps_readDouble h hblank
  | checkLF => exact keeps_checkLF h hblank
  | readLine => exact iff_of_true (keeps_readLine h) trivial
  | skipLine => exact iff_of_true (Option.some.inj h ▸ keeps_skipLine s) trivial
  | skipSpace =>
    have h : (skipSpace s).map id = some s' := by rwa [Option.map_id]
    exact iff_of_true (keeps_of_map h hblank fun _ ↦ rfl) trivial
  | readString delimiterChar =>
    rw [step, readString, Option.map_map] at h
    exact iff_of_true (keeps_of_map h hblank (keeps_readString0 delimiterChar)) trivial
  | readWord =>
    rw [step, readWord, Option.map_map] at h
    exact iff_of_true (keeps_of_map h hblank keeps_readWord0) trivial
  | peekChar =>
    rw [step, peekChar, Option.map_map] at h
    exact iff_of_true (keeps_of_map h hblank fun _ ↦ rfl) trivial
  | isEOF =>
    rw [step, isEOF, Option.map_map] at h
    exact iff_of_true (keeps_of_map h hblank fun _ ↦ rfl) trivial
  | readLF =>
    rw [step, readLF, Option.map_map] at h
    exact iff_of_true (keeps_of_map h hblank keeps_readLF0) trivial
  | readLFEOF =>
    rw [step, readLFEOF, readLF, Option.map_map, Option.map_map] at h
    exact iff_of_true (keeps_of_map h hblank keeps_readLF0) trivial
  | readUnquotedTextBlock =>
    rw [step, readUnquotedTextBlock, Option.map_map] at h
    refine iff_of_true (keeps_of_map h hblank fun t ↦ keeps_wordFrom ?_) trivial
    exact lineBreaks_dropWhile (by simp) (by simp) t.text
  | readSymbol =>
    rw [step, readSymbol, readWord, Option.map_map, Option.map_map] at h
    refine iff_of_true (keeps_of_map h hblank fun t ↦ ?_) trivial
    dsimp only [Function.comp]
    split
    · exact keeps_readWord0 t
    · exact keeps_readWord0 t
  | readSymbolOf id =>
    rw [step, readSymbolOf, readWord, Option.map_map, Option.map_map] at h
    obtain ⟨t, ht, rfl⟩ := behind_of_map h hblank
    refine iff_of_true ?_ trivial
    dsimp only [Function.comp]
    split
    · split
      · exact ht.keeps_iff.2 (keeps_readWord0 t)
      · rfl
    · exact ht.keeps_iff.2 (keeps_readWord0 t)

end Field

/-! ### Blank lines -/

theorem readLF_eq (s : Scanner K) :
    RunsOut s ∧ readLF s = none ∨
      ¬RunsOut s ∧ ∃ n, readLF s = some (readLF0 (s.moveToLine (behindBlank s) n)) := by
  obtain ⟨hout, hs⟩ | ⟨hout, n, hs⟩ := skipSpace_eq s
  · exact .inl ⟨hout, by rw [readLF, hs, Option.map_none]⟩
  · exact .inr ⟨hout, n, by rw [readLF, hs, Option.map_some]⟩

variable {r : Bool × Scanner K}

theorem moves_readLF (h : readLF s = some r) : Moves s r.2 := by
  obtain ⟨-, hnone⟩ | ⟨-, n, hr⟩ := readLF_eq s
  · rw [hnone] at h
    cases h
  · obtain rfl := Option.some.inj (hr.symm.trans h)
    exact (moves_behindBlank s n).trans (moves_readLF0 _)

/-- The blanks before each line feed that the loop of `skipBlankLines` looks for are counted. -/
def BlankLinesCounted : ℕ → Scanner K → Prop
  | 0, _ => True
  | fuel + 1, s => peek s.text ≠ '\x00' → blanksCounted s.settings .space s.text = true ∧
    ∀ t, readLF s = some (true, t) → BlankLinesCounted fuel t

theorem keeps_readLF (h : readLF s = some r)
    (hblank : blanksCounted s.settings .space s.text = true) : Keeps s r.2 := by
  obtain ⟨t, ht, rfl⟩ := behind_of_map h hblank
  exact ht.keeps_iff.2 (keeps_readLF0 t)

theorem moves_skipBlankLinesLoop {fuel : ℕ} (h : skipBlankLinesLoop fuel s = some r)
    : Moves s r.2 := by
  induction fuel generalizing s with
  | zero => cases h
  | succ fuel ih =>
    rw [skipBlankLinesLoop] at h
    split at h
    · cases h
      exact .refl s
    obtain ⟨⟨b, t⟩, hr, h⟩ := Option.bind_eq_some_iff.1 h
    have hmoves := moves_readLF hr
    split at h
    · exact hmoves.trans (ih h)
    · cases h
      exact hmoves

theorem keeps_skipBlankLinesLoop {fuel : ℕ} (h : skipBlankLinesLoop fuel s = some r)
    (hblank : BlankLinesCounted fuel s) : Keeps s r.2 := by
  induction fuel generalizing s with
  | zero => cases h
  | succ fuel ih =>
    rw [skipBlankLinesLoop] at h
    split at h
    · cases h
      rfl
    rename_i h0
    obtain ⟨⟨b, t⟩, hr, h⟩ := Option.bind_eq_some_iff.1 h
    obtain ⟨hblank, hblanks⟩ := hblank h0
    have hkeeps : Keeps s t := keeps_readLF hr hblank
    split at h
    · rename_i hb
      obtain rfl : b = true := hb
      exact (ih h (hblanks t hr)).trans hkeeps
    · cases h
      exact hkeeps

/-! ### Runs -/

/-- A call on a scanner. -/
inductive Call where
  | op (op : Op)
  | skipBlankLines

section Field

variable [Field K]

/-- The scanner after a call. -/
def call (s : Scanner K) : Call → Option (Scanner K)
  | .op op => step s op
  | .skipBlankLines => (skipBlankLines s).map Prod.snd

/-- A call counts the line breaks in the blanks that it skips. -/
def CallBlanksCounted (s : Scanner K) : Call → Prop
  | .op op => BlanksCounted s op
  | .skipBlankLines => BlankLinesCounted (s.text.length + 1) s

/-- A call counts the line breaks that it takes elsewhere, and no others. -/
def CallCounts (s : Scanner K) : Call → Prop
  | .op op => Counts s op
  | .skipBlankLines => True

theorem moves_call {s s' : Scanner K} {c : Call} (hs : Inside s) (h : call s c = some s') :
    Moves s s' := by
  rcases c with op | -
  · obtain ⟨-, t, ht, hmoves⟩ | ⟨-, hnone⟩ := ends_step hs op
    · obtain rfl := Option.some.inj (ht.symm.trans h)
      exact hmoves
    · rw [call, hnone] at h
      cases h
  · obtain ⟨r, hr, rfl⟩ := Option.map_eq_some_iff.1 h
    exact moves_skipBlankLinesLoop hr

theorem keeps_call {s s' : Scanner K} {c : Call} (h : call s c = some s')
    (hblank : CallBlanksCounted s c) : Keeps s s' ↔ CallCounts s c := by
  rcases c with op | -
  · exact keeps_step h hblank
  · obtain ⟨r, hr, rfl⟩ := Option.map_eq_some_iff.1 h
    exact iff_of_true (keeps_skipBlankLinesLoop hr hblank) trivial

/-- No line break has a white-space character or a comment character. -/
def PlainBlanks (st : Settings) : Prop :=
  ∀ c, c = '\n' ∨ c = '\r' → c ∉ st.whiteSpaceChars ∧ some c ≠ st.commentChar

section

omit [Field K]

theorem PlainBlanks.blanksCounted {st : Settings} (hst : PlainBlanks st) (blank : Blank)
    (text : Text) : blanksCounted st blank text = true := by
  induction text generalizing blank with
  | nil => rfl
  | cons c text ih =>
    have hbreak : (c ∈ st.whiteSpaceChars ∨ some c = st.commentChar) → ¬EndsBreak (c :: text) := by
      intro hc
      refine not_endsBreak ?_ ?_ text
      · rintro rfl
        exact hc.elim (hst '\n' (.inl rfl)).1 (hst '\n' (.inl rfl)).2
      · rintro rfl
        exact hc.elim (hst '\r' (.inr rfl)).1 (hst '\r' (.inr rfl)).2
    rw [EasyScanner.blanksCounted]
    split_ifs with _ _ hwhite hcomment
    · exact ih .space
    · rw [ih, Bool.or_true]
    · simpa [ih] using hbreak (.inl hwhite.2)
    · simpa [ih] using hbreak (.inr hcomment.2)
    · rfl
    · exact ih .space
    · exact ih .feed
    · rfl

theorem PlainBlanks.blankLinesCounted (hs : PlainBlanks s.settings) (fuel : ℕ) :
    BlankLinesCounted fuel s := by
  induction fuel generalizing s with
  | zero => trivial
  | succ fuel ih =>
    refine fun _ ↦ ⟨hs.blanksCounted .space s.text, fun t ht ↦ ih ?_⟩
    rwa [(moves_readLF ht).settings]

end

theorem PlainBlanks.alongSome (hst : PlainBlanks s.settings) (hs : Inside s)
    (calls : List Call) : AlongSome call CallBlanksCounted s calls := by
  induction calls generalizing s with
  | nil => trivial
  | cons c calls ih =>
    intro s' hcall
    have hmoves := moves_call hs hcall
    refine ⟨?_, ih (hmoves.settings ▸ hst) (hmoves.inside hs)⟩
    rcases c with op | -
    · cases op with
      | readLine => trivial
      | skipLine => trivial
      | _ => exact hst.blanksCounted .space s.text
    · exact hst.blankLinesCounted _

/-- Where the blanks are counted, the line number is right all along a run exactly when every call
counts the line breaks that it takes, and no others. -/
theorem countsLines_iff (s : Scanner K) (textBuf : Text) (offset : ℤ) (calls : List Call)
    (hblank : AlongSome call CallBlanksCounted (s.setText textBuf offset) calls) :
    (∀ k s', (calls.take k).foldlM call (s.setText textBuf offset) = some s' →
        CountsLines offset s') ↔
      AlongSome call CallCounts (s.setText textBuf offset) calls := by
  refine AlongSome.forall_take_iff (fun hs hblank hcall ↦ ?_) hblank
    (countsLines_setText s textBuf offset)
  rw [(moves_call hs.1 hcall).keeps_iff hs]
  exact keeps_call hcall hblank

end Field

theorem plainBlanks_openQuote : PlainBlanks openQuote.settings := by
  rintro c (rfl | rfl)
  · exact ⟨by decide, by decide⟩
  · exact ⟨by decide, by decide⟩

/-- A number, a string of two lines that is closed, and another line. -/
def closedQuote : Scanner ℚ :=
  openQuote.setText ['7', '\n', '"', 'a', '\n', 'b', '"', '\r', '\n', 'c'] 1

/-- The number and the string are counted, and there is no line feed behind them to go back to. -/
theorem countsLines_closedQuote :
    AlongSome call CallCounts closedQuote
      [.op .readInt, .op (.readQuotedString false), .op .checkLF] ∧
      ∀ k s', List.foldlM call closedQuote
          ([.op .readInt, .op (.readQuotedString false), .op .checkLF].take k) = some s' →
        CountsLines 1 s' := by
  have hblank := PlainBlanks.alongSome (s := closedQuote) plainBlanks_openQuote List.suffix_rfl
    [.op .readInt, .op (.readQuotedString false), .op .checkLF]
  have hcounts : AlongSome call CallCounts closedQuote
      [.op .readInt, .op (.readQuotedString false), .op .checkLF] := by
    intro s₁ h₁
    obtain rfl := Option.some.inj h₁
    refine ⟨⟨rfl, fun _ ↦ rfl⟩, fun s₂ h₂ ↦ ?_⟩
    obtain rfl := Option.some.inj h₂
    exact ⟨fun _ ↦ ⟨by decide, fun _ ↦ rfl⟩, fun _ _ ↦ ⟨rfl, trivial⟩⟩
  exact ⟨hcounts, (countsLines_iff openQuote _ 1 _ hblank).2 hcounts⟩

/-- A scanner for which lines matter, as they do where nothing else is set, before a line feed. -/
def lineScanner : Scanner ℚ :=
  { openQuote with settings := { openQuote.settings with isLineOriented := true } }

/-- `checkLF` goes back in front of a line feed and leaves it counted, and so does a string that is
not closed. -/
theorem not_countsLines_goesBack :
    (¬∀ k s', List.foldlM call (lineScanner.setText ['\n'] 1) ([.op .checkLF].take k) = some s' →
        CountsLines 1 s') ∧
      ¬∀ k s', List.foldlM call (openQuote.setText ['"', '\n', 'a'] 1)
        ([.op (.readQuotedString false)].take k) = some s' → CountsLines 1 s' := by
  refine ⟨fun h ↦ ?_, fun h ↦ ?_⟩
  · exact absurd (h 1 _ rfl).2 (by decide)
  · exact absurd (h 1 _ rfl).2 (by decide)

end OpenHRP.EasyScanner
