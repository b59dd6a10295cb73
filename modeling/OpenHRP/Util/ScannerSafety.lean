import OpenHRP.Foundations.Runs
import OpenHRP.Util.EasyScanner
import Mathlib.Algebra.Field.Rat

/-!
# The scanner and its buffer

Most operations of the scanner stop at the terminating NUL of the text. They go past it where NUL
has been made a white-space or quote character or is asked for, and where a quoted string that may
span lines is not closed and the text ends in a line feed that the loop reads in the place of a
character. `readLine` reads before the start of a text that starts with a line feed.

These are all the ways out of the buffer (`staysInside_iff`).
-/

namespace OpenHRP.EasyScanner

variable {K : Type*}

/-! ### Where the scanner leaves its buffer -/

/-- Where a scanner is that skips blanks: before white space, in a comment, or behind a carriage
return that a line feed may complete. -/
inductive Blank where
  | space
  | comment
  | feed
  deriving DecidableEq

/-- White space, comments and line feeds at the start of a text: what is behind them, and whether
they end in a comment. -/
def skipBlank (st : Settings) : Blank → Text → Bool × Text
  | blank, [] => (blank = .comment, [])
  | blank, c :: text =>
    if blank = .feed ∧ c = '\n' then skipBlank st .space text
    else if blank = .comment ∧ c ≠ '\r' ∧ c ≠ '\n' then
      if c = '\x00' then (true, c :: text) else skipBlank st .comment text
    else if blank ≠ .comment ∧ c ∈ st.whiteSpaceChars then skipBlank st .space text
    else if blank ≠ .comment ∧ some c = st.commentChar then skipBlank st .comment text
    else if st.isLineOriented then (blank = .comment, c :: text)
    else if c = '\n' then skipBlank st .space text
    else if c = '\r' then skipBlank st .feed text
    else (blank = .comment, c :: text)

/-- The text behind the blanks. -/
def behindBlank (s : Scanner K) : Text :=
  (skipBlank s.settings .space s.text).2

/-- NUL is a white-space character, and the text is white space up to its end. -/
def RunsOut (s : Scanner K) : Prop :=
  '\x00' ∈ s.settings.whiteSpaceChars ∧ skipBlank s.settings .space s.text = (false, [])

/-- Where a scanner is that looks for the closing quote: it has just read a line feed, or a carriage
return that a line feed may complete, or neither. -/
inductive Piece where
  | other
  | lineFeed
  | carriageReturn
  deriving DecidableEq

/-- A text without a closing quote, read in pieces of one character or of a line feed and the
character behind it, up to a line feed with nothing behind it. -/
def overruns (quoteChar : Option Char) : Piece → Text → Bool
  | piece, [] => piece ≠ .other
  | .other, c :: text =>
    if c = '\n' then overruns quoteChar .lineFeed text
    else if c = '\r' then overruns quoteChar .carriageReturn text
    else c ≠ '\x00' && some c ≠ quoteChar && overruns quoteChar .other text
  | .lineFeed, c :: text => some c ≠ quoteChar && overruns quoteChar .other text
  | .carriageReturn, c :: text =>
    if c = '\n' then overruns quoteChar .lineFeed text
    else some c ≠ quoteChar && overruns quoteChar .other text

/-- The text starts with a quote, which is NUL at its end or opens a string that overruns. -/
def Unclosed (st : Settings) : Text → Prop
  | [] => st.quoteChar = some '\x00'
  | c :: text => some c = st.quoteChar ∧ st.isLineOriented = false ∧
    overruns st.quoteChar .other text = true

/-- An operation that stays inside the buffer. -/
def Safe (s : Scanner K) : Op → Prop
  | .skipLine => True
  | .readLine => ¬(s.text = s.textBuf ∧ peek s.text = '\n')
  | .readCharOf chara => ¬RunsOut s ∧ ¬(chara = '\x00' ∧ behindBlank s = [])
  | .readQuotedString _ => ¬RunsOut s ∧ ¬Unclosed s.settings (behindBlank s)
  | .readToken => ¬RunsOut s ∧ ¬(Unclosed s.settings (behindBlank s) ∧
      let c := peek (behindBlank s)
      (isdigit c || c = '+' || c = '-') = false ∧ isalpha c = false)
  | _ => ¬RunsOut s

/-- The pointer is inside the buffer. -/
def Inside (s : Scanner K) : Prop :=
  s.text <:+ s.textBuf

/-! ### Skipping blanks -/

variable (st : Settings) (text : Text)

theorem skipBlank_dropWhile :
    skipBlank st .space text = skipBlank st .space (text.dropWhile (· ∈ st.whiteSpaceChars)) := by
  induction text with
  | nil => rfl
  | cons c text ih =>
    by_cases hc : c ∈ st.whiteSpaceChars
    · rw [List.dropWhile_cons_of_pos (by simpa using hc), ← ih]
      simp [skipBlank, hc]
    · rw [List.dropWhile_cons_of_neg (by simpa using hc)]

theorem skipWhite_eq (whiteSpaceChars : List Char) (text : Text) :
    skipWhite whiteSpaceChars text =
      if '\x00' ∈ whiteSpaceChars ∧ text.dropWhile (· ∈ whiteSpaceChars) = [] then none
      else some (text.dropWhile (· ∈ whiteSpaceChars)) := by
  induction text with
  | nil => simp [skipWhite]
  | cons c text ih =>
    by_cases hc : c ∈ whiteSpaceChars
    · rw [List.dropWhile_cons_of_pos (by simpa using hc), ← ih, skipWhite, if_pos hc]
    · rw [List.dropWhile_cons_of_neg (by simpa using hc), skipWhite, if_neg hc,
        if_neg fun h ↦ by cases h.2]

theorem lineFeed_of_ne {c : Char} (hn : c ≠ '\n') (hr : c ≠ '\r') (text : Text) :
    lineFeed (c :: text) = none := by
  unfold lineFeed
  split
  · simp_all
  · simp_all
  · simp_all
  · rfl

/-- The text behind a carriage return, without the line feed that completes it. -/
def behindReturn : Text → Text
  | [] => []
  | c :: text => if c = '\n' then text else c :: text

theorem lineFeed_cr : lineFeed ('\r' :: text) = some (behindReturn text) := by
  unfold lineFeed
  split
  · simp_all
  · simp_all [behindReturn]
  · rename_i hne h
    obtain ⟨-, rfl⟩ := List.cons.inj h
    cases text with
    | nil => rfl
    | cons c text => rw [behindReturn, if_neg fun hc ↦ hne text (by rw [hc])]
  · simp_all

theorem skipBlank_feed : skipBlank st .feed text = skipBlank st .space (behindReturn text) := by
  cases text with
  | nil => rfl
  | cons c text => by_cases hc : c = '\n' <;> simp [skipBlank, behindReturn, hc]

/-- Behind white space and comments, a line feed is skipped if lines do not matter. -/
def skipFeed (st : Settings) (inComment : Bool) (text : Text) : Bool × Text :=
  if st.isLineOriented then (inComment, text)
  else
    match lineFeed text with
    | some text => skipBlank st .space text
    | none => (inComment, text)

theorem skipFeed_cons (inComment : Bool) (c : Char) (text : Text) :
    skipFeed st inComment (c :: text) =
      if st.isLineOriented then (inComment, c :: text)
      else if c = '\n' then skipBlank st .space text
      else if c = '\r' then skipBlank st .feed text
      else (inComment, c :: text) := by
  rw [skipFeed]
  congr 1
  by_cases hn : c = '\n'
  · subst hn
    rfl
  by_cases hr : c = '\r'
  · subst hr
    rw [lineFeed_cr, if_neg hn, if_pos rfl, skipBlank_feed]
  · rw [lineFeed_of_ne hn hr, if_neg hn, if_neg hr]

theorem skipBlank_comment : skipBlank st .comment text = skipFeed st true (skipToLineEnd text) := by
  induction text with
  | nil => simp [skipBlank, skipFeed, skipToLineEnd, lineFeed]
  | cons c text ih =>
    rw [skipToLineEnd]
    by_cases hfeed : c = '\r' ∨ c = '\n'
    · rw [if_pos (by rcases hfeed with rfl | rfl <;> rfl), skipFeed_cons]
      rcases hfeed with rfl | rfl <;> simp [skipBlank]
    obtain ⟨hr, hn⟩ := not_or.1 hfeed
    by_cases h0 : c = '\x00'
    · subst h0
      simp [skipBlank, skipFeed_cons]
    · rw [if_neg (by simp [hr, hn, h0]), ← ih]
      simp [skipBlank, hr, hn, h0]

theorem skipBlank_of_notMem {c : Char} (hc : c ∉ st.whiteSpaceChars) (text : Text) :
    skipBlank st .space (c :: text) =
      if some c = st.commentChar then skipBlank st .comment text
      else skipFeed st false (c :: text) := by
  rw [skipFeed_cons]
  simp [skipBlank, hc]

/-- What the first white space and comment hide. -/
theorem skipBlank_eq :
    ∃ inComment, skipBlank st .space text = skipFeed st inComment
        (skipComment st.commentChar (text.dropWhile (· ∈ st.whiteSpaceChars))) ∧
      (inComment = false →
        skipComment st.commentChar (text.dropWhile (· ∈ st.whiteSpaceChars)) = [] →
        text.dropWhile (· ∈ st.whiteSpaceChars) = []) := by
  rw [skipBlank_dropWhile]
  cases htext : text.dropWhile (· ∈ st.whiteSpaceChars) with
  | nil => exact ⟨false, by simp [skipBlank, skipComment, skipFeed, lineFeed], fun _ _ ↦ rfl⟩
  | cons c rest =>
    have hc : c ∉ st.whiteSpaceChars := by
      simpa [htext] using List.head?_dropWhile_not (fun c ↦ decide (c ∈ st.whiteSpaceChars)) text
    rw [skipBlank_of_notMem st hc, skipComment]
    split
    · exact ⟨true, skipBlank_comment st rest, fun h ↦ (nomatch h)⟩
    · exact ⟨false, rfl, fun _ h ↦ h⟩

theorem skipToLineEnd_suffix : skipToLineEnd text <:+ text := by
  induction text with
  | nil => exact List.suffix_rfl
  | cons c text ih =>
    rw [skipToLineEnd]
    split
    · exact List.suffix_rfl
    · exact ih.trans (List.suffix_cons c text)

theorem skipComment_suffix (commentChar : Option Char) (text : Text) :
    skipComment commentChar text <:+ text := by
  cases text with
  | nil => exact List.suffix_rfl
  | cons c text =>
    rw [skipComment]
    split
    · exact (skipToLineEnd_suffix text).trans (List.suffix_cons c text)
    · exact List.suffix_rfl

theorem behindReturn_suffix : behindReturn text <:+ text := by
  cases text with
  | nil => exact List.suffix_rfl
  | cons c text =>
    rw [behindReturn]
    split
    · exact List.suffix_cons c text
    · exact List.suffix_rfl

variable {text rest : Text}

/-- A line feed has at least one character. -/
theorem lineFeed_cons (h : lineFeed text = some rest) :
    ∃ c text', text = c :: text' ∧ rest <:+ text' := by
  cases text with
  | nil => cases h
  | cons c text =>
    refine ⟨c, text, rfl, ?_⟩
    by_cases hn : c = '\n'
    · subst hn
      exact (Option.some.inj h) ▸ List.suffix_rfl
    by_cases hr : c = '\r'
    · subst hr
      rw [lineFeed_cr, Option.some_inj] at h
      exact h ▸ behindReturn_suffix text
    · rw [lineFeed_of_ne hn hr] at h
      cases h

variable {text : Text}

theorem skipSpaceLoop_eq {fuel : ℕ} (hfuel : text.length < fuel) (lineNumber : ℤ) :
    (('\x00' ∈ st.whiteSpaceChars ∧ skipBlank st .space text = (false, [])) ∧
        skipSpaceLoop st fuel text lineNumber = none) ∨
      (¬('\x00' ∈ st.whiteSpaceChars ∧ skipBlank st .space text = (false, [])) ∧
        ∃ n, skipSpaceLoop st fuel text lineNumber = some ((skipBlank st .space text).2, n)) := by
  induction fuel generalizing text lineNumber with
  | zero => exact absurd hfuel (Nat.not_lt_zero _)
  | succ fuel ih =>
    obtain ⟨inComment, hblank, hempty⟩ := skipBlank_eq st text
    rw [skipSpaceLoop, skipWhite_eq]
    by_cases hout : '\x00' ∈ st.whiteSpaceChars ∧ text.dropWhile (· ∈ st.whiteSpaceChars) = []
    · refine .inl ⟨⟨hout.1, ?_⟩, by rw [if_pos hout]⟩
      rw [skipBlank_dropWhile, hout.2]
      rfl
    rw [if_neg hout]
    dsimp only
    set rest := skipComment st.commentChar (text.dropWhile (· ∈ st.whiteSpaceChars)) with hrest
    -- where the loop ends, the text does not end in white space
    have hstop : skipBlank st .space text = (inComment, rest) →
        ¬('\x00' ∈ st.whiteSpaceChars ∧ skipBlank st .space text = (false, [])) := by
      rintro h ⟨h0, h'⟩
      rw [h, Prod.mk.injEq] at h'
      exact hout ⟨h0, hempty h'.1 h'.2⟩
    rw [skipFeed] at hblank
    cases hline : st.isLineOriented with
    | true =>
      rw [hline, if_pos rfl] at hblank
      exact .inr ⟨hstop hblank, lineNumber, by simp [hblank]⟩
    | false =>
      rw [hline, if_neg Bool.false_ne_true] at hblank
      cases hfeed : lineFeed rest with
      | none =>
        rw [hfeed] at hblank
        exact .inr ⟨hstop hblank, lineNumber, by simp [hblank]⟩
      | some rest' =>
        rw [hfeed] at hblank
        have hlt : rest'.length < fuel := by
          obtain ⟨c, text', hcons, hsuffix⟩ := lineFeed_cons hfeed
          have hle : rest.length ≤ text.length := ((skipComment_suffix st.commentChar _).trans
            (List.dropWhile_suffix (· ∈ st.whiteSpaceChars))).length_le
          have := hsuffix.length_le
          rw [hcons, List.length_cons] at hle
          omega
        simpa [hfeed, hblank] using ih hlt (lineNumber + 1)

theorem skipBlank_suffix (blank : Blank) (text : Text) : (skipBlank st blank text).2 <:+ text := by
  induction text generalizing blank with
  | nil => exact List.suffix_rfl
  | cons c text ih =>
    have hrest : ∀ blank, (skipBlank st blank text).2 <:+ c :: text := fun blank ↦
      (ih blank).trans (List.suffix_cons c text)
    rw [skipBlank]
    split_ifs <;> first | exact hrest _ | exact List.suffix_rfl

/-! ### Moves -/

/-- The pointer has moved on, and the text and the settings are as before. -/
structure Moves (s s' : Scanner K) : Prop where
  settings : s'.settings = s.settings
  textBuf : s'.textBuf = s.textBuf
  text : s'.text <:+ s.text

namespace Moves

variable {s s' s'' : Scanner K}

protected theorem refl (s : Scanner K) : Moves s s :=
  ⟨rfl, rfl, List.suffix_rfl⟩

protected theorem trans (h : Moves s s') (h' : Moves s' s'') : Moves s s'' :=
  ⟨h'.settings.trans h.settings, h'.textBuf.trans h.textBuf, h'.text.trans h.text⟩

theorem inside (h : Moves s s') (hs : Inside s) : Inside s' := by
  rw [Inside, h.textBuf]
  exact h.text.trans hs

end Moves

/-- A result is there exactly when `safe` holds, and is then a move. -/
def Ends (safe : Prop) (s : Scanner K) (r : Option (Scanner K)) : Prop :=
  safe ∧ (∃ s', r = some s' ∧ Moves s s') ∨ ¬safe ∧ r = none

variable {s : Scanner K}

theorem Ends.congr {safe safe' : Prop} {r : Option (Scanner K)}
    (h : Ends safe s r) (hsafe : safe ↔ safe') : Ends safe' s r :=
  (propext hsafe) ▸ h

variable {safe : Prop}

theorem Ends.of_moves {s t : Scanner K} {r : Option (Scanner K)} (h : Ends safe t r)
    (hmoves : Moves s t) : Ends safe s r := by
  obtain ⟨hsafe, s', hr, ht⟩ | h := h
  · exact .inl ⟨hsafe, s', hr, hmoves.trans ht⟩
  · exact .inr h

theorem skipSpace_eq (s : Scanner K) :
    RunsOut s ∧ skipSpace s = none ∨
      ¬RunsOut s ∧ ∃ n, skipSpace s = some (s.moveToLine (behindBlank s) n) := by
  obtain ⟨hout, h⟩ | ⟨hout, n, h⟩ :=
    skipSpaceLoop_eq s.settings (Nat.lt_succ_self s.text.length) s.lineNumber
  · exact .inl ⟨hout, by rw [skipSpace, h, Option.map_none]⟩
  · exact .inr ⟨hout, n, by rw [skipSpace, h, Option.map_some]; rfl⟩

theorem moves_behindBlank (s : Scanner K) (n : ℤ) : Moves s (s.moveToLine (behindBlank s) n) :=
  ⟨rfl, rfl, skipBlank_suffix _ _ _⟩

/-- An operation that skips blanks first. -/
theorem ends_bind {f : Scanner K → Option (Scanner K)}
    (h : ∀ n, Ends safe s (f (s.moveToLine (behindBlank s) n))) :
    Ends (¬RunsOut s ∧ safe) s ((skipSpace s).bind f) := by
  obtain ⟨hout, hs⟩ | ⟨hout, n, hs⟩ := skipSpace_eq s
  · exact .inr ⟨fun h ↦ h.1 hout, by rw [hs, Option.bind_none]⟩
  · rw [hs, Option.bind_some]
    obtain ⟨hsafe, hmoves⟩ | ⟨hsafe, hnone⟩ := h n
    · exact .inl ⟨⟨hout, hsafe⟩, hmoves⟩
    · exact .inr ⟨fun h ↦ hsafe h.2, hnone⟩

/-- An operation that skips blanks first and cannot leave the buffer then. -/
theorem ends_bind_of_moves {f : Scanner K → Option (Scanner K)}
    (h : ∀ n, Ends True s (f (s.moveToLine (behindBlank s) n))) :
    Ends (¬RunsOut s) s ((skipSpace s).bind f) :=
  (ends_bind h).congr (by rw [and_true])

theorem ends_map {f : Scanner K → Scanner K}
    (h : ∀ n, Moves s (f (s.moveToLine (behindBlank s) n))) :
    Ends (¬RunsOut s) s ((skipSpace s).map f) := by
  rw [Option.map_eq_bind]
  exact ends_bind_of_moves fun n ↦ .inl ⟨trivial, _, rfl, h n⟩

theorem moves_moveTo (h : text <:+ s.text) :
    Moves s (s.moveTo text) :=
  ⟨rfl, rfl, h⟩

theorem lineFeed_suffix (h : lineFeed text = some rest) : rest <:+ text := by
  obtain ⟨c, text', rfl, hsuffix⟩ := lineFeed_cons h
  exact hsuffix.trans (List.suffix_cons c text')

theorem moves_readLF0 (s : Scanner K) : Moves s (readLF0 s).2 := by
  rw [readLF0]
  split
  · exact ⟨rfl, rfl, lineFeed_suffix ‹_›⟩
  · exact .refl s

theorem moves_wordFrom (s : Scanner K) (h : text <:+ s.text) :
    Moves s (wordFrom s text).2 := by
  rw [wordFrom]
  split
  · exact ⟨rfl, rfl, h⟩
  · exact ⟨rfl, rfl, h⟩

theorem moves_readWord0 (s : Scanner K) : Moves s (readWord0 s).2 :=
  moves_wordFrom s (List.dropWhile_suffix _)

theorem moves_readString0 (delimiterChar : Char) (s : Scanner K) :
    Moves s (readString0 delimiterChar s).2 :=
  moves_wordFrom s (List.dropWhile_suffix _)

theorem matchString_suffix {str : List Char}
    (h : matchString str text = some rest) : rest <:+ text := by
  induction str generalizing text with
  | nil => exact (Option.some.inj h) ▸ List.suffix_rfl
  | cons c str ih =>
    cases text with
    | nil => cases h
    | cons d text =>
      rw [matchString] at h
      split at h
      · exact (ih h).trans (List.suffix_cons d text)
      · cases h

/-! ### Numbers -/

theorem readSign_suffix (text : Text) : (readSign text).2 <:+ text := by
  unfold readSign
  split
  · exact List.suffix_cons _ _
  · exact List.suffix_cons _ _
  · exact List.suffix_rfl

theorem numberBase_suffix (text : Text) : (numberBase text).2 <:+ text := by
  unfold numberBase
  split
  · split
    · exact (List.suffix_cons _ _).trans (List.suffix_cons _ _)
    · exact List.suffix_rfl
  · split
    · exact (List.suffix_cons _ _).trans (List.suffix_cons _ _)
    · exact List.suffix_rfl
  · exact List.suffix_rfl
  · exact List.suffix_rfl

theorem strtol_suffix (text : Text) : (strtol text).2 <:+ text := by
  rw [strtol]
  dsimp only
  split_ifs
  · exact List.suffix_rfl
  all_goals exact (List.drop_suffix _ _).trans <| (numberBase_suffix _).trans <|
    (readSign_suffix _).trans (List.dropWhile_suffix _)

section Double

variable [Field K]

theorem readDigits_suffix (value : K) (text : Text) : (readDigits value text).2 <:+ text := by
  induction text generalizing value with
  | nil => exact List.suffix_rfl
  | cons c text ih =>
    rw [readDigits]
    split
    · exact (ih _).trans (List.suffix_cons c text)
    · exact List.suffix_rfl

theorem readDecimals_suffix (value small : K) (text : Text) :
    (readDecimals value small text).2 <:+ text := by
  induction text generalizing value small with
  | nil => exact List.suffix_rfl
  | cons c text ih =>
    rw [readDecimals]
    split
    · exact (ih _ _).trans (List.suffix_cons c text)
    · exact List.suffix_rfl

theorem readExponent_suffix (p : ℕ) (text : Text) : (readExponent p text).2 <:+ text := by
  induction text generalizing p with
  | nil => exact List.suffix_rfl
  | cons c text ih =>
    rw [readExponent]
    split
    · exact (ih _).trans (List.suffix_cons c text)
    · exact List.suffix_rfl

theorem finishDouble_suffix {org text : Text} (h : text <:+ org) (negative valid : Bool)
    (value : K) :
    (finishDouble org negative valid value text).2 <:+ org := by
  rw [finishDouble]
  dsimp only
  split_ifs
  · exact h
  · exact List.suffix_rfl

theorem readMagnitude_suffix {org text : Text} (h : text <:+ org) (negative : Bool) :
    (readMagnitude (K := K) org negative text).2 <:+ org := by
  have hdigits := (readDigits_suffix (0 : K) text).trans h
  have hexponent : ∀ rest : Text, rest <:+ org →
      (readExponent 0 (readSign (rest.drop 1)).2).2 <:+ org := fun rest hrest ↦
    (readExponent_suffix _ _).trans <| (readSign_suffix _).trans <|
      (List.drop_suffix _ _).trans hrest
  unfold readMagnitude
  dsimp only
  split
  · rename_i rest hpoint
    have hrest : rest <:+ org := (hpoint ▸ List.suffix_cons '.' rest).trans hdigits
    have hdecimals := fun value small : K ↦ (readDecimals_suffix value small rest).trans hrest
    split
    · exact finishDouble_suffix (hexponent _ (hdecimals _ _)) _ _ _
    · exact finishDouble_suffix (hdecimals _ _) _ _ _
  · split
    · exact finishDouble_suffix (hexponent _ hdigits) _ _ _
    · exact finishDouble_suffix hdigits _ _ _

theorem mystrtod_suffix (text : Text) : (mystrtod (K := K) text).2 <:+ text := by
  have hsign := readSign_suffix text
  unfold mystrtod
  dsimp only
  split
  · exact readMagnitude_suffix List.nil_suffix _
  · rename_i c rest hsigned
    rw [hsigned] at hsign
    have hrest : rest <:+ text := (List.suffix_cons c rest).trans hsign
    have hdrop : rest.drop 1 <:+ text := (List.drop_suffix 1 rest).trans hrest
    split_ifs
    · exact (List.drop_suffix 1 _).trans hdrop
    · exact readMagnitude_suffix hdrop _
    · exact List.suffix_rfl
    · exact readMagnitude_suffix hsign _

end Double

/-! ### Quoted strings -/

theorem closingQuoteInLine_suffix {quoteChar : Option Char}
    (h : closingQuoteInLine quoteChar text = some rest) : rest ≠ [] ∧ rest <:+ text := by
  induction text with
  | nil => cases h
  | cons c text ih =>
    rw [closingQuoteInLine] at h
    split_ifs at h with hline hquote
    · obtain rfl := Option.some.inj h
      exact ⟨List.cons_ne_nil _ _, List.suffix_rfl⟩
    · exact ⟨(ih h).1, (ih h).2.trans (List.suffix_cons c text)⟩

variable (quoteChar : Option Char)

theorem overruns_cr (text : Text) :
    overruns quoteChar .carriageReturn text = overruns quoteChar .lineFeed (behindReturn text) := by
  cases text with
  | nil => rfl
  | cons c text => by_cases hc : c = '\n' <;> simp [overruns, behindReturn, hc]

/-- What the loop for the closing quote finds: a quote in the text, or none. -/
def Found (text : Text) (r : Option (Option Text × ℤ)) : Prop :=
  ∃ found n, r = some (found, n) ∧ ∀ rest ∈ found, rest ≠ [] ∧ rest <:+ text

theorem Found.cons {r : Option (Option Text × ℤ)} (h : Found text r) (c : Char) :
    Found (c :: text) r := by
  obtain ⟨found, n, hr, hfound⟩ := h
  exact ⟨found, n, hr, fun rest hrest ↦
    ⟨(hfound rest hrest).1, (hfound rest hrest).2.trans (List.suffix_cons c text)⟩⟩

/-- The loop for the closing quote leaves the buffer, or the closing quote is the terminating NUL.
-/
def Lost (r : Option (Option Text × ℤ)) : Prop :=
  r = none ∨ ∃ n, r = some (some [], n)

theorem overruns_of_lineFeed (h : lineFeed text = some rest) :
    overruns quoteChar .other text = overruns quoteChar .lineFeed rest := by
  cases text with
  | nil => cases h
  | cons c text =>
    by_cases hn : c = '\n'
    · subst hn
      obtain rfl := Option.some.inj h
      simp [overruns]
    by_cases hr : c = '\r'
    · subst hr
      rw [lineFeed_cr, Option.some_inj] at h
      rw [← h, ← overruns_cr]
      simp [overruns]
    · rw [lineFeed_of_ne hn hr] at h
      cases h

variable {text : Text}

theorem overruns_of_ne {c : Char} (h : lineFeed (c :: text) = none) :
    overruns quoteChar .other (c :: text) =
      (c ≠ '\x00' && some c ≠ quoteChar && overruns quoteChar .other text) := by
  have hn : c ≠ '\n' := by
    rintro rfl
    cases h
  have hr : c ≠ '\r' := by
    rintro rfl
    rw [lineFeed_cr] at h
    cases h
  rw [overruns, if_neg hn, if_neg hr]

theorem closingQuote_eq {fuel : ℕ} (hfuel : text.length < fuel) (lineNumber : ℤ) :
    overruns quoteChar .other text = true ∧ Lost (closingQuote quoteChar fuel text lineNumber) ∨
      overruns quoteChar .other text = false ∧
        Found text (closingQuote quoteChar fuel text lineNumber) := by
  induction fuel generalizing text lineNumber with
  | zero => exact absurd hfuel (Nat.not_lt_zero _)
  | succ fuel ih =>
    cases text with
    | nil => exact .inr ⟨rfl, none, lineNumber, rfl, fun _ h ↦ (nomatch h)⟩
    | cons c text =>
      rw [List.length_cons] at hfuel
      by_cases h0 : c = '\x00'
      · subst h0
        exact .inr ⟨by simp [overruns], none, lineNumber, rfl, fun _ h ↦ (nomatch h)⟩
      rw [closingQuote, peek, List.headD_cons, if_neg h0]
      cases hfeed : lineFeed (c :: text) with
      | none =>
        rw [overruns_of_ne quoteChar hfeed]
        by_cases hquote : some c = quoteChar
        · subst hquote
          refine .inr ⟨by simp, some (c :: text), lineNumber, ?_, ?_⟩
          · simp [peek]
          · rintro rest ⟨⟩
            exact ⟨List.cons_ne_nil c text, List.suffix_rfl⟩
        · obtain ⟨h, hlost⟩ | ⟨h, hfound⟩ := ih (show text.length < fuel by omega) lineNumber
          · exact .inl ⟨by simp [h0, hquote, h], by simpa [peek, hquote, advance] using hlost⟩
          · exact .inr ⟨by simp [h], by simpa [peek, hquote, advance] using hfound.cons c⟩
      | some rest =>
        rw [overruns_of_lineFeed quoteChar hfeed]
        obtain ⟨_, _, hcons, hsuffix⟩ := lineFeed_cons hfeed
        obtain ⟨rfl, rfl⟩ := List.cons.inj hcons
        have hle := hsuffix.length_le
        cases rest with
        | nil =>
          -- the terminating NUL is taken for a character of the string
          refine .inl ⟨by simp [overruns], ?_⟩
          by_cases hquote : some '\x00' = quoteChar
          · exact .inr ⟨lineNumber + 1, by simp [peek, hquote]⟩
          · exact .inl (by simp [peek, hquote, advance])
        | cons d rest =>
          rw [List.length_cons] at hle
          have htail : rest <:+ c :: text :=
            (List.suffix_cons d rest).trans (lineFeed_suffix hfeed)
          by_cases hquote : some d = quoteChar
          · subst hquote
            refine .inr ⟨by simp [overruns], some (d :: rest), lineNumber + 1, ?_, ?_⟩
            · simp [peek]
            · rintro _ ⟨⟩
              exact ⟨List.cons_ne_nil d rest, lineFeed_suffix hfeed⟩
          · obtain ⟨h, hlost⟩ | ⟨h, found, n, hr, hfound⟩ :=
              ih (show rest.length < fuel by omega) (lineNumber + 1)
            · exact .inl ⟨by simp [overruns, hquote, h],
                by simpa [peek, hquote, advance] using hlost⟩
            · refine .inr ⟨by simp [overruns, h], found, n, ?_, fun t ht ↦
                ⟨(hfound t ht).1, (hfound t ht).2.trans htail⟩⟩
              simpa [peek, hquote, advance] using hr

theorem advance_of_ne (h : text ≠ []) : ∃ rest, advance text = some rest ∧ rest <:+ text := by
  cases text with
  | nil => exact absurd rfl h
  | cons c rest => exact ⟨rest, rfl, List.suffix_cons c rest⟩

theorem ne_nil_of_peek (h : peek text ≠ '\x00') : text ≠ [] := by
  rintro rfl
  exact h rfl

theorem ends_extractQuotedString (h : some (peek s.text) = s.settings.quoteChar) :
    Ends (¬Unclosed s.settings s.text) s ((extractQuotedString s).map Prod.snd) := by
  cases htext : s.text with
  | nil =>
    rw [htext] at h
    refine .inr ⟨fun hsafe ↦ hsafe h.symm, ?_⟩
    simp [extractQuotedString, htext, advance]
  | cons c org =>
    rw [htext] at h
    have horg : org <:+ s.text := htext ▸ List.suffix_cons c org
    have hfound : Found org (if s.settings.isLineOriented then
          some (closingQuoteInLine s.settings.quoteChar org, s.lineNumber)
        else closingQuote s.settings.quoteChar (org.length + 1) org s.lineNumber) →
        ∃ s', (extractQuotedString s).map Prod.snd = some s' ∧ Moves s s' := by
      rintro ⟨_ | text, n, hr, hfound⟩
      · refine ⟨s.moveToLine org n, ?_, rfl, rfl, horg⟩
        rw [extractQuotedString, htext, advance]
        dsimp only
        rw [hr]
        rfl
      · obtain ⟨hne, hsuffix⟩ := hfound text rfl
        obtain ⟨rest, hadvance, hrest⟩ := advance_of_ne hne
        refine ⟨((s.moveToLine text n).assign org).moveTo rest, ?_, rfl, rfl,
          hrest.trans (hsuffix.trans horg)⟩
        rw [extractQuotedString, htext, advance]
        dsimp only
        rw [hr]
        simp [hadvance]
    cases hline : s.settings.isLineOriented with
    | true =>
      refine .inl ⟨fun hunclosed ↦ by simp [Unclosed, hline] at hunclosed, hfound ?_⟩
      rw [hline]
      exact ⟨_, _, rfl, fun rest hrest ↦ closingQuoteInLine_suffix hrest⟩
    | false =>
      obtain ⟨hover, hlost⟩ | ⟨hover, hr⟩ :=
        closingQuote_eq s.settings.quoteChar (Nat.lt_succ_self org.length) s.lineNumber
      · refine .inr ⟨fun hsafe ↦ hsafe ⟨h, hline, hover⟩, ?_⟩
        rw [extractQuotedString, htext, advance]
        dsimp only
        rw [hline]
        obtain hnone | ⟨n, hsome⟩ := hlost
        · simp [hnone]
        · simp [hsome, advance]
      · refine .inl ⟨fun hunclosed ↦ ?_, hfound ?_⟩
        · rw [hunclosed.2.2] at hover
          cases hover
        · rw [hline]
          exact hr

/-! ### The operations -/

theorem Unclosed.peek_eq {st : Settings} (h : Unclosed st text) :
    some (peek text) = st.quoteChar := by
  cases text with
  | nil => exact (Eq.symm h)
  | cons c text => exact h.1

/-- Taking a character that is not NUL. -/
theorem ends_advance {β : Type*} {s t : Scanner K} {f : Text → β × Scanner K} (hst : Moves s t)
    (h0 : peek t.text ≠ '\x00') (hf : ∀ rest, rest <:+ t.text → Moves t (f rest).2)
    (hsafe : safe) : Ends safe s (((advance t.text).map f).map Prod.snd) := by
  obtain ⟨rest, hadvance, hrest⟩ := advance_of_ne (ne_nil_of_peek h0)
  exact .inl ⟨hsafe, (f rest).2, by rw [hadvance]; rfl, hst.trans (hf rest hrest)⟩

theorem ends_readQuotedString (allowNoQuotedWord : Bool) (s : Scanner K) :
    Ends (Safe s (.readQuotedString allowNoQuotedWord)) s
      ((readQuotedString allowNoQuotedWord s).map Prod.snd) := by
  rw [readQuotedString, Option.map_bind]
  refine ends_bind fun n ↦ ?_
  have hmoves := moves_behindBlank s n
  set t := s.moveToLine (behindBlank s) n
  dsimp only [Function.comp]
  by_cases hquote : some (peek t.text) = t.settings.quoteChar
  · rw [if_pos hquote]
    exact (ends_extractQuotedString hquote).of_moves hmoves
  · rw [if_neg hquote]
    have hsafe : ¬Unclosed s.settings (behindBlank s) := fun h ↦ hquote h.peek_eq
    split
    · exact .inl ⟨hsafe, _, rfl, hmoves.trans (moves_readString0 ' ' t)⟩
    · exact .inl ⟨hsafe, _, rfl, hmoves⟩

theorem ends_readChar (s : Scanner K) : Ends (¬RunsOut s) s ((readChar s).map Prod.snd) := by
  rw [readChar, Option.map_bind]
  refine ends_bind_of_moves fun n ↦ ?_
  have hmoves := moves_behindBlank s n
  dsimp only [Function.comp]
  split
  · rename_i hgraph
    refine ends_advance hmoves (fun h0 ↦ ?_) (fun rest hrest ↦ ⟨rfl, rfl, hrest⟩) trivial
    rw [h0] at hgraph
    exact absurd hgraph (by decide)
  · exact .inl ⟨trivial, _, rfl, hmoves⟩

theorem ends_readCharOf (chara : Char) (s : Scanner K) :
    Ends (Safe s (.readCharOf chara)) s ((readCharOf chara s).map Prod.snd) := by
  rw [readCharOf, Option.map_bind]
  refine ends_bind fun n ↦ ?_
  have hmoves := moves_behindBlank s n
  set t := s.moveToLine (behindBlank s) n with ht
  dsimp only [Function.comp]
  split
  · rename_i hpeek
    cases htext : behindBlank s with
    | nil =>
      have hnil : t.text = [] := htext
      rw [hnil] at hpeek ⊢
      exact .inr ⟨fun h ↦ h ⟨hpeek.symm, rfl⟩, rfl⟩
    | cons c rest =>
      have hcons : t.text = c :: rest := htext
      refine .inl ⟨fun h ↦ (nomatch h.2), t.moveTo rest, by rw [hcons]; rfl, hmoves.trans ?_⟩
      exact moves_moveTo (hcons ▸ List.suffix_cons c rest)
  · rename_i hpeek
    refine .inl ⟨?_, _, rfl, hmoves⟩
    rintro ⟨rfl, hnil⟩
    exact hpeek (by rw [show t.text = [] from hnil]; rfl)

theorem moves_checkLF {r : Bool × Scanner K} (h : Moves s r.2) :
    Moves s (if r.1 then r.2.moveTo s.text else r.2) := by
  split
  · exact ⟨h.settings, h.textBuf, List.suffix_rfl⟩
  · exact h

theorem moves_matchString (t : Scanner K) (str : List Char) :
    Moves t (match matchString str t.text with
      | some text => (true, t.moveTo text)
      | none => (false, t)).2 := by
  split
  · exact moves_moveTo (matchString_suffix ‹_›)
  · exact .refl t

theorem peek_ne_of {p : Char → Bool} (hp : p '\x00' = false) (h : p (peek text) = true) :
    peek text ≠ '\x00' := by
  rintro h0
  rw [h0, hp] at h
  cases h

theorem ends_readAlphabet (h0 : peek s.text ≠ '\x00') (hsafe : safe) :
    Ends safe s ((readAlphabet s).map Prod.snd) := by
  rw [readAlphabet]
  refine ends_advance (.refl s) h0 (fun rest hrest ↦ ?_) hsafe
  have hword := (List.dropWhile_suffix fun c ↦ isalnum c || c = '_').trans hrest
  dsimp only
  split
  · exact ⟨rfl, rfl, hword⟩
  · exact ⟨rfl, rfl, hword⟩

section Token

variable [Field K]

theorem ends_readNumber (h0 : peek s.text ≠ '\x00') (hsafe : safe) :
    Ends safe s ((readNumber s).map Prod.snd) := by
  rw [readNumber]
  dsimp only
  split
  · exact .inl ⟨hsafe, _, rfl, rfl, rfl, strtol_suffix s.text⟩
  split
  · exact .inl ⟨hsafe, _, rfl, rfl, rfl, mystrtod_suffix s.text⟩
  · exact ends_advance (.refl s) h0 (fun rest hrest ↦ ⟨rfl, rfl, hrest⟩) hsafe

theorem ends_readToken (s : Scanner K) :
    Ends (Safe s .readToken) s ((readToken s).map Prod.snd) := by
  rw [readToken, Option.map_bind]
  refine ends_bind fun n ↦ ?_
  have hmoves := moves_behindBlank s n
  set t := s.moveToLine (behindBlank s) n with ht
  have hpeek : peek (behindBlank s) = peek t.text := rfl
  rw [hpeek]
  dsimp only [Function.comp]
  split
  · rename_i hnumber
    refine Ends.of_moves (ends_readNumber ?_ ?_) hmoves
    · exact peek_ne_of (p := fun c ↦ isdigit c || c = '+' || c = '-') rfl (by simpa using hnumber)
    · exact fun h ↦ by simp [hnumber] at h
  split
  · rename_i halpha
    refine Ends.of_moves (ends_readAlphabet (peek_ne_of rfl halpha) ?_) hmoves
    exact fun h ↦ by simp [halpha] at h
  rename_i hnumber halpha
  split
  · rename_i hquote
    rw [Option.map_map]
    refine ((ends_extractQuotedString hquote).of_moves hmoves).congr (not_congr ?_)
    exact ⟨fun h ↦ ⟨h, by simpa using hnumber, by simpa using halpha⟩, fun h ↦ h.1⟩
  rename_i hquote
  have hsafe : ¬Unclosed s.settings (behindBlank s) := fun h ↦ hquote h.peek_eq
  split
  · rename_i hpunct
    exact ends_advance hmoves (peek_ne_of rfl hpunct) (fun rest hrest ↦ ⟨rfl, rfl, hrest⟩)
      fun h ↦ hsafe h.1
  · exact .inl ⟨fun h ↦ hsafe h.1, _, rfl, hmoves.trans (moves_readLF0 t)⟩

end Token

/-! ### Lines -/

theorem skipLineLoop_suffix (text : Text) : (skipLineLoop text).2 <:+ text := by
  induction text with
  | nil => exact List.suffix_rfl
  | cons c text ih =>
    rw [skipLineLoop]
    split
    · exact lineFeed_suffix ‹_›
    split
    · exact List.suffix_rfl
    · exact ih.trans (List.suffix_cons c text)

theorem skipLineLoop_lt (h : (skipLineLoop text).1 = true) :
    (skipLineLoop text).2.length < text.length := by
  induction text with
  | nil => cases h
  | cons c text ih =>
    rw [skipLineLoop] at h ⊢
    split at h
    · rename_i rest hfeed
      obtain ⟨_, _, hcons, hsuffix⟩ := lineFeed_cons hfeed
      obtain ⟨rfl, rfl⟩ := List.cons.inj hcons
      have hle := hsuffix.length_le
      rw [List.length_cons]
      dsimp only
      omega
    · split at h
      · cases h
      · have hlt := ih h
        rename_i h0
        rw [if_neg h0, List.length_cons]
        omega

theorem lineEnd_eq_none {textBuf : Text} {pos : ℕ} :
    lineEnd textBuf pos = none ↔ pos ≤ 1 ∧ textBuf[0]? = some '\n' := by
  rw [lineEnd]
  split
  · rename_i hfeed
    cases hpos : pos - 1 with
    | zero =>
      rw [hpos] at hfeed
      exact ⟨fun _ ↦ ⟨by omega, hfeed⟩, fun _ ↦ rfl⟩
    | succ i => exact ⟨fun h ↦ (nomatch h), fun h ↦ absurd h.1 (by omega)⟩
  · rename_i hfeed
    refine ⟨fun h ↦ (nomatch h), fun h ↦ absurd h.2 ?_⟩
    rwa [show pos - 1 = 0 by omega] at hfeed

theorem eq_cons_of_peek {c : Char} (hc : c ≠ '\x00') (h : peek text = c) :
    ∃ rest, text = c :: rest := by
  cases text with
  | nil => exact absurd h.symm hc
  | cons d rest => exact ⟨rest, by rw [← h]; rfl⟩

theorem ends_readLine (hs : Inside s) :
    Ends (Safe s .readLine) s ((readLine s).map Prod.snd) := by
  have hmoves : Moves s (skipLine s).2 := ⟨rfl, rfl, skipLineLoop_suffix s.text⟩
  have hle := hs.length_le
  rw [readLine]
  dsimp only
  by_cases hstart : s.text = s.textBuf ∧ peek s.text = '\n'
  · obtain ⟨hwhole, hpeek⟩ := hstart
    obtain ⟨rest, htext⟩ := eq_cons_of_peek (by decide) hpeek
    have hline : skipLineLoop s.text = (true, rest) := by
      rw [htext]
      rfl
    have hend : lineEnd s.textBuf (s.textBuf.length - (skipLine s).2.text.length) = none := by
      rw [lineEnd_eq_none]
      refine ⟨?_, by rw [← hwhole, htext]; rfl⟩
      rw [show (skipLine s).2.text = rest from congrArg Prod.snd hline, ← hwhole, htext,
        List.length_cons]
      omega
    refine .inr ⟨fun h ↦ h ⟨hwhole, hpeek⟩, ?_⟩
    rw [if_pos (show (skipLine s).1 = true from congrArg Prod.fst hline), hend]
    rfl
  · refine .inl ⟨hstart, ?_⟩
    split
    · rename_i hline
      have hlt : (skipLine s).2.text.length < s.text.length := skipLineLoop_lt hline
      cases hend : lineEnd s.textBuf (s.textBuf.length - (skipLine s).2.text.length) with
      | none =>
        obtain ⟨hpos, hfeed⟩ := lineEnd_eq_none.1 hend
        have hwhole : s.text = s.textBuf := hs.eq_of_length_le (by omega)
        refine absurd ⟨hwhole, ?_⟩ hstart
        rw [peek, hwhole, List.headD_eq_head?_getD, List.head?_eq_getElem?, hfeed]
        rfl
      | some stop =>
        refine ⟨_, rfl, ?_⟩
        dsimp only
        split
        · exact hmoves
        · exact ⟨rfl, rfl, hmoves.text⟩
    · exact ⟨_, rfl, hmoves⟩

section Step

variable [Field K]

/-- What an operation does: it moves on in the buffer where it is safe, and leaves the buffer
elsewhere. -/
theorem ends_step (hs : Inside s) (op : Op) : Ends (Safe s op) s (step s op) := by
  cases op with
  | readToken => exact ends_readToken s
  | readQuotedString allowNoQuotedWord => exact ends_readQuotedString allowNoQuotedWord s
  | readChar => exact ends_readChar s
  | readCharOf chara => exact ends_readCharOf chara s
  | readLine => exact ends_readLine hs
  | skipLine => exact .inl ⟨trivial, _, rfl, rfl, rfl, skipLineLoop_suffix s.text⟩
  | skipSpace =>
    show Ends (¬RunsOut s) s (skipSpace s)
    simpa using ends_map (f := id) (moves_behindBlank s)
  | readString delimiterChar =>
    rw [step, readString, Option.map_map]
    exact ends_map fun n ↦ (moves_behindBlank s n).trans (moves_readString0 delimiterChar _)
  | readStringOf str =>
    rw [step, readStringOf, Option.map_map]
    exact ends_map fun n ↦ (moves_behindBlank s n).trans (moves_matchString _ _)
  | readWord =>
    rw [step, readWord, Option.map_map]
    exact ends_map fun n ↦ (moves_behindBlank s n).trans (moves_readWord0 _)
  | peekChar =>
    rw [step, peekChar, Option.map_map]
    exact ends_map (moves_behindBlank s)
  | isEOF =>
    rw [step, isEOF, Option.map_map]
    exact ends_map (moves_behindBlank s)
  | readLF =>
    rw [step, readLF, Option.map_map]
    exact ends_map fun n ↦ (moves_behindBlank s n).trans (moves_readLF0 _)
  | readLFEOF =>
    rw [step, readLFEOF, readLF, Option.map_map, Option.map_map]
    exact ends_map fun n ↦ (moves_behindBlank s n).trans (moves_readLF0 _)
  | readUnquotedTextBlock =>
    rw [step, readUnquotedTextBlock, Option.map_map]
    exact ends_map fun n ↦ (moves_behindBlank s n).trans
      (moves_wordFrom _ (List.dropWhile_suffix _))
  | checkLF =>
    rw [step, checkLF, readLF, Option.map_map, Option.map_map]
    exact ends_map fun n ↦ moves_checkLF ((moves_behindBlank s n).trans (moves_readLF0 _))
  | readInt =>
    rw [step, readInt, checkLF, readLF, Option.map_map, Option.map_map, Option.map_map]
    refine ends_map fun n ↦ ?_
    have hfeed := (moves_behindBlank s n).trans (moves_readLF0 _)
    dsimp only [Function.comp]
    split
    · exact ⟨hfeed.settings, hfeed.textBuf, List.suffix_rfl⟩
    · exact ⟨hfeed.settings, hfeed.textBuf, (strtol_suffix _).trans hfeed.text⟩
  | readDouble =>
    rw [step, readDouble, checkLF, readLF, Option.map_map, Option.map_map, Option.map_map]
    refine ends_map fun n ↦ ?_
    have hfeed := (moves_behindBlank s n).trans (moves_readLF0 _)
    dsimp only [Function.comp]
    split
    · exact ⟨hfeed.settings, hfeed.textBuf, List.suffix_rfl⟩
    · exact ⟨hfeed.settings, hfeed.textBuf, (mystrtod_suffix _).trans hfeed.text⟩
  | readSymbol =>
    rw [step, readSymbol, readWord, Option.map_map, Option.map_map]
    refine ends_map fun n ↦ ?_
    have hword := (moves_behindBlank s n).trans (moves_readWord0 _)
    dsimp only [Function.comp]
    split
    · exact ⟨hword.settings, hword.textBuf, hword.text⟩
    · exact hword
  | readSymbolOf id =>
    rw [step, readSymbolOf, readWord, Option.map_map, Option.map_map]
    refine ends_map fun n ↦ ?_
    have hword := (moves_behindBlank s n).trans (moves_readWord0 _)
    dsimp only [Function.comp]
    split
    · split
      · exact ⟨hword.settings, hword.textBuf, hword.text⟩
      · exact ⟨hword.settings, hword.textBuf, List.suffix_rfl⟩
    · exact hword

/-- A run whose operations are all safe stays inside the buffer, and no other run does. -/
theorem staysInside_iff (s : Scanner K) (hs : Inside s) (ops : List Op) :
    (∀ k, ∃ s', run s (ops.take k) = some s' ∧ Inside s' ∧ s'.textBuf = s.textBuf) ↔
      Along (fun s op ↦ (step s op).getD s) Safe s ops := by
  induction ops generalizing s with
  | nil =>
    refine ⟨fun _ ↦ trivial, fun _ k ↦ ⟨s, ?_, hs, rfl⟩⟩
    rw [List.take_nil]
    rfl
  | cons op ops ih =>
    have hrun : ∀ s' k, step s op = some s' →
        run s ((op :: ops).take (k + 1)) = run s' (ops.take k) := fun s' k hstep ↦ by
      rw [List.take_succ_cons, run, List.foldlM_cons, hstep]
      rfl
    obtain ⟨hsafe, s', hstep, hmoves⟩ | ⟨hsafe, hstep⟩ := ends_step hs op
    · have ih := ih s' (hmoves.inside hs)
      rw [Along, hstep, Option.getD_some, ← ih]
      refine ⟨fun h ↦ ⟨hsafe, fun k ↦ ?_⟩, fun h k ↦ ?_⟩
      · obtain ⟨t, ht, hinside, hbuf⟩ := h (k + 1)
        exact ⟨t, (hrun s' k hstep).symm.trans ht, hinside, hbuf.trans hmoves.textBuf.symm⟩
      · cases k with
        | zero => exact ⟨s, rfl, hs, rfl⟩
        | succ k =>
          obtain ⟨t, ht, hinside, hbuf⟩ := h.2 k
          exact ⟨t, (hrun s' k hstep).trans ht, hinside, hbuf.trans hmoves.textBuf⟩
    · refine ⟨fun h ↦ ?_, fun h ↦ absurd h.1 hsafe⟩
      obtain ⟨t, ht, -⟩ := h 1
      rw [List.take_succ_cons, run, List.foldlM_cons, hstep] at ht
      cases ht

end Step

/-- A scanner of a text that ends in the first line of a quoted string. -/
def openQuote : Scanner ℚ where
  settings :=
    { commentChar := some '#'
      quoteChar := some '"'
      isLineOriented := false
      whiteSpaceChars := [' ', '\t']
      symbols := []
      commentChar_ne := by decide }
  textBuf := ['"', '\n']
  text := ['"', '\n']
  intValue := 0
  doubleValue := some 0
  stringValue := []
  charValue := '\x00'
  symbolValue := 0
  lineNumber := 1

/-- Reading characters instead of the string is safe. -/
theorem staysInside_openQuote :
    Inside openQuote ∧ ∀ k, ∃ s', run openQuote ([.readChar, .readLine].take k) = some s' ∧
      Inside s' ∧ s'.textBuf = openQuote.textBuf := by
  refine ⟨List.suffix_rfl, (staysInside_iff openQuote List.suffix_rfl [.readChar, .readLine]).2 ?_⟩
  refine ⟨fun h ↦ absurd h.1 (by decide), fun h ↦ ?_, trivial⟩
  exact absurd h.1 (by decide)

/-- The string is not closed, and the terminating NUL is skipped behind the line feed. -/
theorem not_staysInside_openQuote :
    ¬∀ k, ∃ s', run openQuote ([.readQuotedString false].take k) = some s' ∧
      Inside s' ∧ s'.textBuf = openQuote.textBuf := fun h ↦ by
  obtain ⟨s', hrun, -⟩ := h 1
  cases hrun

end OpenHRP.EasyScanner
