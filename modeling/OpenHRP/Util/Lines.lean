import OpenHRP.Util.LineNumbers

/-!
# Reading a text line by line

The lines of a text are what its line breaks separate (`lines`): a line feed, a carriage return, or
both of them. The last line need not have a line break.

`readLine` takes the next line break first, and then looks for the end of the line backwards from
there. It yields the lines of a text exactly when all of them end with a line feed, carriage returns
stand before line feeds only, and the text neither has a NUL nor starts with a line feed
(`readLines_eq_iff`).
-/

namespace OpenHRP.EasyScanner

variable {K : Type*}

/-! ### The lines of a text -/

/-- The lines of a text, without their line breaks. -/
def lines : Text → List Text
  | [] => []
  | '\n' :: text => [] :: lines text
  | '\r' :: '\n' :: text => [] :: lines text
  | '\r' :: text => [] :: lines text
  | c :: text => (c :: (lines text).headD []) :: (lines text).tail

/-- A character that is in no line break. -/
def NotBreak (c : Char) : Prop :=
  c ≠ '\n' ∧ c ≠ '\r'

theorem lines_cons_of_notBreak {c : Char} (hc : NotBreak c) (text : Text) :
    lines (c :: text) = (c :: (lines text).headD []) :: (lines text).tail := by
  rw [lines.eq_def]
  split
  · rename_i h
    cases h
  · rename_i h
    exact absurd (List.cons.inj h).1 hc.1
  · rename_i h
    exact absurd (List.cons.inj h).1 hc.2
  · rename_i h
    exact absurd (List.cons.inj h).1 hc.2
  · rename_i h
    obtain ⟨rfl, rfl⟩ := List.cons.inj h
    rfl

theorem lines_cr (text : Text) : lines ('\r' :: text) = [] :: lines (behindReturn text) := by
  rcases text with - | ⟨c, text⟩
  · rfl
  by_cases hc : c = '\n'
  · subst hc
    rfl
  · rw [behindReturn, if_neg hc, lines.eq_def]
    split
    · rename_i h
      cases h
    · rename_i h
      cases (List.cons.inj h).1
    · rename_i h
      exact absurd (List.cons.inj (List.cons.inj h).2).1 hc
    · rename_i h
      rw [(List.cons.inj h).2]
    · rename_i hcr h
      obtain ⟨rfl, rfl⟩ := List.cons.inj h
      exact (hcr rfl).elim

variable {l rest : Text}

/-- A line and the lines behind it. -/
theorem lines_append {ls : List Text} (hl : ∀ c ∈ l, NotBreak c) (h : lines rest = [] :: ls) :
    lines (l ++ rest) = l :: ls := by
  induction l with
  | nil => exact h
  | cons c l ih =>
    rw [List.cons_append, lines_cons_of_notBreak (hl c List.mem_cons_self),
      ih fun d hd ↦ hl d (List.mem_cons_of_mem c hd)]
    rfl

variable {text : Text}

theorem lines_eq_nil : lines text = [] ↔ text = [] := by
  refine ⟨fun h ↦ ?_, fun h ↦ by rw [h]; rfl⟩
  rcases text with - | ⟨c, text⟩
  · rfl
  by_cases hn : c = '\n'
  · subst hn
    cases h
  by_cases hr : c = '\r'
  · subst hr
    rw [lines_cr] at h
    cases h
  · rw [lines_cons_of_notBreak ⟨hn, hr⟩] at h
    cases h

/-! ### The loop -/

/-- The lines that are read until `readLine` returns false. Every turn but the last one takes a line
break, so that the number of characters bounds the number of turns. There is no result if a line is
not read. -/
def readLinesLoop : ℕ → Scanner K → Option (List Text)
  | 0, _ => none
  | fuel + 1, s =>
    match readLine s with
    | some (some true, s) => (readLinesLoop fuel s).map (s.stringValue :: ·)
    | some (some false, _) => some []
    | _ => none

/-- `while(scanner.readLine())`, over the lines. -/
def readLines (s : Scanner K) : Option (List Text) :=
  readLinesLoop (s.text.length + 1) s

/-! ### The end of a line -/

/-- A character that a line goes on behind. -/
def InLine (c : Char) : Prop :=
  NotBreak c ∧ c ≠ '\x00'

theorem skipLineLoop_append (hl : ∀ c ∈ l, InLine c) (rest : Text) :
    skipLineLoop (l ++ rest) = skipLineLoop rest := by
  induction l with
  | nil => rfl
  | cons c l ih =>
    obtain ⟨⟨hn, hr⟩, h0⟩ := hl c List.mem_cons_self
    rw [List.cons_append, skipLineLoop, lineFeed_of_ne hn hr]
    dsimp only
    rw [if_neg h0, ih fun d hd ↦ hl d (List.mem_cons_of_mem c hd)]

theorem skipLineLoop_of_lineFeed {text rest : Text} (h : lineFeed text = some rest) :
    skipLineLoop text = (true, rest) := by
  rcases text with - | ⟨c, text⟩
  · cases h
  · rw [skipLineLoop, h]

/-- A text is a line, and the end of the buffer, a NUL or a line break behind it. -/
theorem exists_line (text : Text) :
    ∃ l rest, text = l ++ rest ∧ (∀ c ∈ l, InLine c) ∧
      ((rest = [] ∨ ∃ r, rest = '\x00' :: r) ∨ ∃ next, lineFeed rest = some next) := by
  induction text with
  | nil => exact ⟨[], [], rfl, fun _ h ↦ absurd h List.not_mem_nil, .inl (.inl rfl)⟩
  | cons c text ih =>
    rcases hfeed : lineFeed (c :: text) with - | next
    · by_cases h0 : c = '\x00'
      · exact ⟨[], c :: text, rfl, fun _ h ↦ absurd h List.not_mem_nil,
          .inl (.inr ⟨text, by rw [h0]⟩)⟩
      · obtain ⟨l, rest, rfl, hl, hrest⟩ := ih
        refine ⟨c :: l, rest, rfl, fun d hd ↦ ?_, hrest⟩
        rcases List.mem_cons.1 hd with rfl | hd
        · exact ⟨ne_of_lineFeed hfeed, h0⟩
        · exact hl d hd
    · exact ⟨[], c :: text, rfl, fun _ h ↦ absurd h List.not_mem_nil, .inr ⟨next, hfeed⟩⟩

theorem lineFeed_cases {rest next : Text} (h : lineFeed rest = some next) :
    rest = '\n' :: next ∨ rest = '\r' :: '\n' :: next ∨ rest = '\r' :: next ∧ peek next ≠ '\n' := by
  obtain ⟨c, text, rfl, -⟩ := lineFeed_cons h
  by_cases hn : c = '\n'
  · subst hn
    exact .inl (by rw [Option.some.inj h])
  by_cases hr : c = '\r'
  · subst hr
    rw [lineFeed_cr, Option.some_inj] at h
    rcases text with - | ⟨d, text⟩
    · exact .inr (.inr ⟨by rw [← h]; rfl, by rw [← h]; decide⟩)
    rw [behindReturn] at h
    split at h
    · rename_i hd
      exact .inr (.inl (by rw [hd, h]))
    · rename_i hd
      exact .inr (.inr ⟨by rw [h], by rw [← h]; exact hd⟩)
  · rw [lineFeed_of_ne hn hr] at h
    cases h

theorem lineEnd_newline {c : Char} (hc : c ≠ '\r') (rest : Text) :
    lineEnd (l ++ [c] ++ '\n' :: rest) (l.length + 2) = some (l.length + 1) := by
  have hfeed : (l ++ [c] ++ '\n' :: rest)[l.length + 1]? = some '\n' := by
    rw [List.getElem?_append_right (by simp)]
    simp
  have hlast : (l ++ [c] ++ '\n' :: rest)[l.length]? = some c := by
    rw [List.append_assoc, List.getElem?_append_right (Nat.le_refl _), Nat.sub_self]
    rfl
  rw [lineEnd, show l.length + 2 - 1 = l.length + 1 from rfl, if_pos hfeed]
  dsimp only
  rw [hlast, if_neg fun h ↦ hc (Option.some.inj h)]

theorem lineEnd_crlf (l rest : Text) :
    lineEnd (l ++ '\r' :: '\n' :: rest) (l.length + 2) = some l.length := by
  have hfeed : (l ++ '\r' :: '\n' :: rest)[l.length + 1]? = some '\n' := by
    rw [List.getElem?_append_right (Nat.le_add_right _ 1), Nat.add_sub_cancel_left]
    rfl
  have hreturn : (l ++ '\r' :: '\n' :: rest)[l.length]? = some '\r' := by
    rw [List.getElem?_append_right (Nat.le_refl _), Nat.sub_self]
    rfl
  rw [lineEnd, show l.length + 2 - 1 = l.length + 1 from rfl, if_pos hfeed]
  exact congrArg some (if_pos hreturn)

/-- A carriage return alone is not taken from the end of the line. -/
theorem lineEnd_cr (l rest : Text) :
    lineEnd (l ++ '\r' :: rest) (l.length + 1) = some (l.length + 1) := by
  have hreturn : (l ++ '\r' :: rest)[l.length]? = some '\r' := by
    rw [List.getElem?_append_right (Nat.le_refl _), Nat.sub_self]
    rfl
  rw [lineEnd, Nat.add_sub_cancel, hreturn, if_neg (by decide)]

/-! ### Reading a line -/

/-- The pointer is behind the first part of the buffer. -/
def At (s : Scanner K) (before text : Text) : Prop :=
  s.textBuf = before ++ text ∧ s.text = text

/-- The line that is read ends where `lineEnd` says. -/
theorem readLine_of_lineFeed {s : Scanner K} {before l rest next : Text} {n : ℕ}
    (hs : At s before (l ++ rest)) (hl : ∀ c ∈ l, InLine c) (hfeed : lineFeed rest = some next)
    (hend : lineEnd s.textBuf (s.textBuf.length - next.length) = some (before.length + n)) :
    ∃ t, readLine s = some (some true, t) ∧ t.textBuf = s.textBuf ∧ t.text = next ∧
      t.stringValue = (l ++ rest).take n := by
  have hskip : skipLine s = (true, s.moveToLine next (s.lineNumber + 1)) := by
    rw [skipLine, hs.2, skipLineLoop_append hl, skipLineLoop_of_lineFeed hfeed]
    rfl
  have hstart : s.textBuf.length - s.text.length = before.length := by
    rw [hs.1, hs.2, List.length_append, Nat.add_sub_cancel]
  refine ⟨{ s.moveToLine next (s.lineNumber + 1) with stringValue := (l ++ rest).take n }, ?_,
    rfl, rfl, rfl⟩
  rw [readLine, hskip]
  dsimp only [Scanner.moveToLine]
  rw [if_pos rfl, hend, hstart, hs.2, Option.map_some, if_neg (by omega), Nat.add_sub_cancel_left]

/-- There is no line break before the end of the text or a NUL. -/
theorem readLine_of_unterminated {s : Scanner K} (hs : s.text = l ++ rest) (hl : ∀ c ∈ l, InLine c)
    (hrest : rest = [] ∨ ∃ r, rest = '\x00' :: r) : ∃ t, readLine s = some (some false, t) := by
  have hskip : (skipLine s).1 = false := by
    rw [skipLine, hs, skipLineLoop_append hl]
    rcases hrest with rfl | ⟨r, rfl⟩ <;> rfl
  refine ⟨(skipLine s).2, ?_⟩
  rw [readLine]
  dsimp only
  rw [if_neg (by rw [hskip]; decide)]

/-! ### Texts whose lines are all read -/

/-- Every line of the text ends with a line feed, and nothing in it looks like the end of a line or
of the text but the line feeds and the carriage returns before them. -/
structure LinesKept (text : Text) : Prop where
  terminated : ∀ c ∈ text.getLast?, c = '\n'
  noNul : '\x00' ∉ text
  returns : ∀ l rest, text = l ++ '\r' :: rest → peek rest = '\n'

theorem linesKept_nil : LinesKept [] where
  terminated _ h := by cases h
  noNul := List.not_mem_nil
  returns l _ h := by
    cases l <;> cases h

theorem linesKept_cons {c : Char} :
    LinesKept (c :: text) ↔
      (text = [] → c = '\n') ∧ c ≠ '\x00' ∧ (c = '\r' → peek text = '\n') ∧ LinesKept text := by
  constructor
  · intro h
    refine ⟨fun htext ↦ h.terminated c (by rw [htext]; rfl), ?_, ?_, ⟨fun d hd ↦ ?_, ?_, ?_⟩⟩
    · rintro rfl
      exact h.noNul List.mem_cons_self
    · rintro rfl
      exact h.returns [] text rfl
    · refine h.terminated d ?_
      rw [List.getLast?_cons, hd]
      rfl
    · exact fun h0 ↦ h.noNul (List.mem_cons_of_mem c h0)
    · exact fun l rest hsplit ↦ h.returns (c :: l) rest (by rw [hsplit]; rfl)
  · rintro ⟨hlast, h0, hreturn, h⟩
    refine ⟨fun d hd ↦ ?_, fun hmem ↦ ?_, fun l rest hsplit ↦ ?_⟩
    · rw [List.getLast?_cons] at hd
      rcases htext : text.getLast? with - | e
      · rw [htext] at hd
        rw [← Option.some.inj hd]
        exact hlast (List.getLast?_eq_none_iff.1 htext)
      · rw [htext] at hd
        rw [← Option.some.inj hd]
        exact h.terminated e htext
    · rcases List.mem_cons.1 hmem with heq | hmem
      · exact h0 heq.symm
      · exact h.noNul hmem
    · rcases l with - | ⟨d, l⟩
      · obtain ⟨rfl, rfl⟩ := List.cons.inj hsplit
        exact hreturn rfl
      · exact h.returns l rest (List.cons.inj hsplit).2

theorem linesKept_append (hl : ∀ c ∈ l, InLine c) (hrest : rest ≠ []) :
    LinesKept (l ++ rest) ↔ LinesKept rest := by
  induction l with
  | nil => rfl
  | cons c l ih =>
    obtain ⟨⟨-, hr⟩, h0⟩ := hl c List.mem_cons_self
    rw [List.cons_append, linesKept_cons, ih fun d hd ↦ hl d (List.mem_cons_of_mem c hd)]
    refine ⟨fun h ↦ h.2.2.2, fun h ↦ ⟨fun hnil ↦ ?_, h0, fun hc ↦ absurd hc hr, h⟩⟩
    exact absurd (List.append_eq_nil_iff.1 hnil).2 hrest

theorem linesKept_newline : LinesKept ('\n' :: text) ↔ LinesKept text := by
  rw [linesKept_cons]
  exact ⟨fun h ↦ h.2.2.2, fun h ↦ ⟨fun _ ↦ rfl, by decide, fun hc ↦ absurd hc (by decide), h⟩⟩

theorem not_linesKept_cr (h : peek text ≠ '\n') : ¬LinesKept ('\r' :: text) :=
  fun hkept ↦ h ((linesKept_cons.1 hkept).2.2.1 rfl)

theorem linesKept_crlf : LinesKept ('\r' :: '\n' :: text) ↔ LinesKept text := by
  rw [linesKept_cons, linesKept_newline]
  exact ⟨fun h ↦ h.2.2.2, fun h ↦ ⟨(by rintro ⟨⟩), by decide, fun _ ↦ rfl, h⟩⟩

theorem not_linesKept_of_unterminated (hl : ∀ c ∈ l, InLine c) (hne : l ++ rest ≠ [])
    (hrest : rest = [] ∨ ∃ r, rest = '\x00' :: r) : ¬LinesKept (l ++ rest) := by
  rcases hrest with rfl | ⟨r, rfl⟩
  · intro h
    rw [List.append_nil] at h hne
    have hlast := h.terminated _ (List.getLast?_eq_getLast_of_ne_nil hne)
    exact (hl _ (List.getLast_mem hne)).1.1 hlast
  · exact fun h ↦ h.noNul (List.mem_append_right l List.mem_cons_self)

/-! ### Every line is read -/

theorem readLinesLoop_eq_cons_iff {fuel : ℕ} {s t : Scanner K} {ls : List Text}
    (h : readLine s = some (some true, t)) :
    readLinesLoop (fuel + 1) s = some (l :: ls) ↔
      t.stringValue = l ∧ readLinesLoop fuel t = some ls := by
  rw [readLinesLoop, h]
  dsimp only
  rcases readLinesLoop fuel t with - | ls'
  · exact ⟨fun h ↦ (by cases h), fun h ↦ (by cases h.2)⟩
  · rw [Option.map_some, Option.some_inj, List.cons.injEq, Option.some_inj]

/-- Before a line feed that is not the first character of the buffer, there is a character that is
no carriage return. -/
theorem exists_concat_of_inLine {before l : Text} (hl : ∀ c ∈ l, InLine c)
    (hbefore : l = [] → ∃ q c, before = q ++ [c] ∧ c ≠ '\r') :
    ∃ q c, before ++ l = q ++ [c] ∧ c ≠ '\r' := by
  rcases List.eq_nil_or_concat' l with rfl | ⟨q, c, rfl⟩
  · rw [List.append_nil]
    exact hbefore rfl
  · exact ⟨before ++ q, c, by rw [List.append_assoc],
      (hl c (List.mem_append_right q List.mem_cons_self)).1.2⟩

/-- Behind a line break, or at a line that does not start with a line feed, exactly the lines of the
text are read when the text keeps its lines. -/
theorem readLinesLoop_eq_lines_iff {fuel : ℕ} {s : Scanner K} {before text : Text}
    (hs : At s before text) (hbefore : peek text = '\n' → ∃ q c, before = q ++ [c] ∧ c ≠ '\r')
    (hfuel : text.length < fuel) :
    readLinesLoop fuel s = some (lines text) ↔ LinesKept text := by
  induction fuel generalizing s before text with
  | zero => exact absurd hfuel (Nat.not_lt_zero _)
  | succ fuel ih =>
    obtain ⟨l, rest, rfl, hl, hrest | ⟨next, hfeed⟩⟩ := exists_line text
    · obtain ⟨t, ht⟩ := readLine_of_unterminated hs.2 hl hrest
      rw [readLinesLoop, ht]
      rcases Decidable.em (l ++ rest = []) with hnil | hne
      · rw [hnil]
        exact iff_of_true rfl linesKept_nil
      · exact iff_of_false (fun h ↦ hne (lines_eq_nil.1 (Option.some.inj h).symm))
          (not_linesKept_of_unterminated hl hne hrest)
    have hbreak : ∀ c ∈ l, NotBreak c := fun c hc ↦ (hl c hc).1
    -- the line breaks: what is before the next line, and where the line ends
    rcases lineFeed_cases hfeed with rfl | rfl | ⟨rfl, hnext⟩
    · obtain ⟨q, c, hq, hc⟩ : ∃ q c, before ++ l = q ++ [c] ∧ c ≠ '\r' := by
        refine exists_concat_of_inLine hl fun hnil ↦ hbefore ?_
        rw [hnil]
        rfl
      have hlen : q.length + 1 = before.length + l.length := by
        rw [← List.length_append, hq, List.length_append, List.length_singleton]
      have hbuf : s.textBuf = q ++ [c] ++ '\n' :: next := by
        rw [hs.1, ← hq, List.append_assoc]
      have hend : lineEnd s.textBuf (s.textBuf.length - next.length) =
          some (before.length + l.length) := by
        have hpos : s.textBuf.length - next.length = q.length + 2 := by
          rw [hbuf]
          simp only [List.length_append, List.length_cons, List.length_nil]
          omega
        rw [hpos, hbuf, lineEnd_newline hc, hlen]
      obtain ⟨t, ht, htbuf, httext, hvalue⟩ := readLine_of_lineFeed hs hl hfeed hend
      rw [List.take_left] at hvalue
      rw [lines_append hbreak rfl, readLinesLoop_eq_cons_iff ht, and_iff_right hvalue,
        linesKept_append hl (List.cons_ne_nil _ _), linesKept_newline]
      have ht' : At t (before ++ l ++ ['\n']) next := by
        refine ⟨?_, httext⟩
        rw [htbuf, hs.1]
        simp
      refine ih ht' (fun _ ↦ ⟨_, _, rfl, by decide⟩) ?_
      · rw [List.length_append, List.length_cons] at hfuel
        omega
    · have hbuf : s.textBuf = before ++ l ++ '\r' :: '\n' :: next := by
        rw [hs.1, List.append_assoc]
      have hend : lineEnd s.textBuf (s.textBuf.length - next.length) =
          some (before.length + l.length) := by
        have hpos : s.textBuf.length - next.length = (before ++ l).length + 2 := by
          rw [hbuf, List.length_append, List.length_cons, List.length_cons]
          omega
        rw [hpos, hbuf, lineEnd_crlf, List.length_append]
      obtain ⟨t, ht, htbuf, httext, hvalue⟩ := readLine_of_lineFeed hs hl hfeed hend
      rw [List.take_left] at hvalue
      rw [lines_append hbreak rfl, readLinesLoop_eq_cons_iff ht, and_iff_right hvalue,
        linesKept_append hl (List.cons_ne_nil _ _), linesKept_crlf]
      have ht' : At t (before ++ l ++ ['\r'] ++ ['\n']) next := by
        refine ⟨?_, httext⟩
        rw [htbuf, hs.1]
        simp
      refine ih ht' (fun _ ↦ ⟨_, _, rfl, by decide⟩) ?_
      · rw [List.length_append, List.length_cons, List.length_cons] at hfuel
        omega
    · have hbuf : s.textBuf = before ++ l ++ '\r' :: next := by
        rw [hs.1, List.append_assoc]
      have hend : lineEnd s.textBuf (s.textBuf.length - next.length) =
          some (before.length + (l.length + 1)) := by
        have hpos : s.textBuf.length - next.length = (before ++ l).length + 1 := by
          rw [hbuf, List.length_append, List.length_cons]
          omega
        rw [hpos, hbuf, lineEnd_cr, List.length_append, Nat.add_assoc]
      obtain ⟨t, ht, -, -, hvalue⟩ := readLine_of_lineFeed hs hl hfeed hend
      rw [lines_append hbreak (lines_cr next), readLinesLoop_eq_cons_iff ht, hvalue,
        linesKept_append hl (List.cons_ne_nil _ _)]
      refine iff_of_false (fun h ↦ ?_) (not_linesKept_cr hnext)
      have hlen := congrArg List.length h.1
      rw [List.length_take, List.length_append, List.length_cons] at hlen
      omega

/-- Reading line by line yields the lines of a text exactly when they are kept and the first of them
does not start with a line feed, before which there is no character to look at. -/
theorem readLines_eq_lines_iff (s : Scanner K) (buf : Text) (offset : ℤ) :
    readLines (s.setText buf offset) = some (lines buf) ↔ peek buf ≠ '\n' ∧ LinesKept buf := by
  have hs : At (s.setText buf offset) [] buf := ⟨rfl, rfl⟩
  by_cases hpeek : peek buf = '\n'
  · refine iff_of_false (fun h ↦ ?_) fun h ↦ h.1 hpeek
    rcases ends_readLine (s := s.setText buf offset) List.suffix_rfl with ⟨hsafe, -⟩ | ⟨-, hnone⟩
    · exact hsafe ⟨rfl, hpeek⟩
    · rw [readLines, readLinesLoop, Option.map_eq_none_iff.1 hnone] at h
      cases h
  · rw [and_iff_right hpeek]
    exact readLinesLoop_eq_lines_iff hs (fun h ↦ absurd h hpeek) (Nat.lt_succ_self _)

/-- The last line has no line feed, and a carriage return alone is kept. -/
theorem readLines_loses :
    readLines (openQuote.setText ['a', '\n', 'b'] 1) = some [['a']] ∧
      readLines (openQuote.setText ['a', '\n', 'b'] 1) ≠ some (lines ['a', '\n', 'b']) ∧
      readLines (openQuote.setText ['a', '\r', 'b', '\n'] 1) = some [['a', '\r'], ['b']] ∧
      readLines (openQuote.setText ['a', '\r', 'b', '\n'] 1) ≠
        some (lines ['a', '\r', 'b', '\n']) := by
  decide +kernel

end OpenHRP.EasyScanner
