import OpenHRP.Util.ScannerSafety
import OpenHRP.Util.VrmlParser

/-!
# Nodes that are skipped

The text between the braces of a node is made of blanks, comments, quoted strings, braces and other
characters (`Item`), and its braces match (`Body`). There are no escapes in a quoted string.

The functions that skip a node read strings and characters up to the first closing brace, whichever
brace it matches, and they only read graphic characters. So a node is skipped as a whole exactly
when its body has neither a brace nor another character (`skipsWholeNode_iff`).
-/

namespace OpenHRP.Vrml

open EasyScanner Stoppable

/-! ### Bodies of nodes -/

/-- White space and line breaks. -/
def blankChars : List Char :=
  [' ', '\t', ',', '\r', '\n']

/-- The characters that are not read for themselves. -/
def markChars : List Char :=
  '#' :: '"' :: '{' :: '}' :: '\x00' :: blankChars

/-- A part of the body of a node. -/
inductive Item where
  | blank (c : Char) (h : c ∈ blankChars)
  | comment (l : Text) (feed : Char) (h : ∀ c ∈ l, c ≠ '\r' ∧ c ≠ '\n' ∧ c ≠ '\x00')
      (hfeed : feed = '\r' ∨ feed = '\n')
  | quoted (l : Text) (h : '"' ∉ l) (h0 : '\x00' ∉ l)
  | openBrace
  | closeBrace
  | character (c : Char) (h : c ∉ markChars)

namespace Item

def text : Item → Text
  | blank c _ => [c]
  | comment l feed _ _ => '#' :: (l ++ [feed])
  | quoted l _ _ => '"' :: (l ++ ['"'])
  | openBrace => ['{']
  | closeBrace => ['}']
  | character c _ => [c]

/-- What is read on the way to a closing brace. -/
def IsPassed : Item → Prop
  | closeBrace => False
  | character c _ => isgraph c = true
  | _ => True

/-- Neither a brace nor a character that is not graphic. -/
def IsPlain : Item → Prop
  | openBrace => False
  | i => i.IsPassed

theorem IsPlain.isPassed {i : Item} (h : i.IsPlain) : i.IsPassed := by
  cases i <;> first | exact h | exact trivial

theorem text_ne_nil (i : Item) : i.text ≠ [] := by
  cases i <;> exact List.cons_ne_nil _ _

end Item

/-- The text of several items. -/
def itemsText (items : List Item) : Text :=
  items.flatMap Item.text

theorem length_le_itemsText (items : List Item) : items.length ≤ (itemsText items).length := by
  induction items with
  | nil => exact Nat.le_refl _
  | cons i items ih =>
    have := List.length_pos_of_ne_nil i.text_ne_nil
    simp only [itemsText, List.flatMap_cons, List.length_append, List.length_cons] at ih ⊢
    omega

/-- How many braces are open after some items, unless one is closed that has not been opened. -/
def depthAfter : ℕ → List Item → Option ℕ
  | depth, [] => some depth
  | depth, .openBrace :: items => depthAfter (depth + 1) items
  | 0, .closeBrace :: _ => none
  | depth + 1, .closeBrace :: items => depthAfter depth items
  | depth, _ :: items => depthAfter depth items

/-- The text between the braces of a node, in which all braces match. -/
structure Body where
  items : List Item
  balanced : depthAfter 0 items = some 0

namespace Body

def text (b : Body) : Text :=
  itemsText b.items

/-- There is no brace and no character that is not graphic, but for strings and comments. -/
def IsPlain (b : Body) : Prop :=
  ∀ i ∈ b.items, i.IsPlain

end Body

variable {items : List Item}

/-- Without a closing brace, there are as many open braces as opening ones. -/
theorem depthAfter_of_isPassed (h : ∀ i ∈ items, i.IsPassed) (depth : ℕ) :
    ∃ opened, depthAfter depth items = some (depth + opened) ∧
      (opened = 0 → ∀ i ∈ items, i.IsPlain) := by
  induction items generalizing depth with
  | nil => exact ⟨0, rfl, fun _ i hi ↦ (nomatch hi)⟩
  | cons i items ih =>
    obtain ⟨hi, hitems⟩ := List.forall_mem_cons.1 h
    cases i with
    | closeBrace => exact hi.elim
    | openBrace =>
      obtain ⟨opened, hdepth, -⟩ := ih hitems (depth + 1)
      exact ⟨opened + 1, by rw [depthAfter, hdepth, Nat.add_assoc, Nat.add_comm 1],
        fun h ↦ (nomatch h)⟩
    | _ =>
      obtain ⟨opened, hdepth, hplain⟩ := ih hitems depth
      exact ⟨opened, by rw [depthAfter, hdepth] <;> simp, fun h ↦
        List.forall_mem_cons.2 ⟨hi, hplain h⟩⟩

theorem Body.isPlain_iff (b : Body) : b.IsPlain ↔ ∀ i ∈ b.items, i.IsPassed := by
  refine ⟨fun h i hi ↦ (h i hi).isPassed, fun h ↦ ?_⟩
  obtain ⟨opened, hdepth, hplain⟩ := depthAfter_of_isPassed h 0
  rw [b.balanced, Option.some_inj] at hdepth
  exact hplain (by omega)

/-! ### Blanks -/

/-- The text behind white space, comments and line feeds. -/
def skipText (text : Text) : Text :=
  (skipBlank vrmlSettings .space text).2

theorem skipText_blank {c : Char} (h : c ∈ blankChars) (text : Text) :
    skipText (c :: text) = skipText text := by
  have hfeed : (skipBlank vrmlSettings .feed text).2 = skipText text := by
    rw [skipBlank_feed]
    cases text with
    | nil => rfl
    | cons d text =>
      rw [behindReturn]
      split
      · subst d
        rfl
      · rfl
  simp only [blankChars, List.mem_cons, List.not_mem_nil, or_false] at h
  rcases h with rfl | rfl | rfl | rfl | rfl <;> first | rfl | exact hfeed

theorem skipText_comment {l : Text} {feed : Char}
    (h : ∀ c ∈ l, c ≠ '\r' ∧ c ≠ '\n' ∧ c ≠ '\x00') (hfeed : feed = '\r' ∨ feed = '\n')
    (text : Text) : skipText ('#' :: (l ++ feed :: text)) = skipText text := by
  have hblank : skipText (feed :: text) = skipText text :=
    skipText_blank (by rcases hfeed with rfl | rfl <;> decide) text
  have hcomment : skipBlank vrmlSettings .comment (l ++ feed :: text) =
      skipBlank vrmlSettings .space (feed :: text) := by
    induction l with
    | nil => rcases hfeed with rfl | rfl <;> rfl
    | cons c l ih =>
      obtain ⟨⟨hr, hn, h0⟩, hl⟩ := List.forall_mem_cons.1 h
      rw [← ih hl]
      simp [skipBlank, hr, hn, h0]
  rw [← hblank, skipText, skipText, ← hcomment]
  rfl

theorem skipText_of_notMem {c : Char} (h : c ∉ '#' :: blankChars) (text : Text) :
    skipText (c :: text) = c :: text := by
  simp only [blankChars, List.mem_cons, List.not_mem_nil, or_false, not_or] at h
  simp [skipText, skipBlank, vrmlSettings, h]

/-! ### Quoted strings -/

/-- A turn of the loop that looks for the closing quote: `d` is what is compared with the quote. -/
theorem closingQuote_succ (quoteChar : Option Char) {text rest : Text} {d : Char}
    (h0 : peek text ≠ '\x00') (h : (lineFeed text).getD text = d :: rest) (fuel : ℕ) (n : ℤ) :
    ∃ n', closingQuote quoteChar (fuel + 1) text n =
      if some d = quoteChar then some (some (d :: rest), n')
      else closingQuote quoteChar fuel rest n' := by
  rw [closingQuote, if_neg h0]
  cases hfeed : lineFeed text with
  | none =>
    rw [hfeed, Option.getD_none] at h
    subst h
    exact ⟨n, rfl⟩
  | some text' =>
    rw [hfeed, Option.getD_some] at h
    subst h
    exact ⟨n + 1, rfl⟩

/-- A line feed in front of the closing quote is a part of the string. -/
theorem exists_behind_feed {q : Char} (hn : q ≠ '\n') (c : Char) (l text : Text) :
    ∃ m, m <:+ c :: l ∧ (lineFeed (c :: l ++ q :: text)).getD (c :: l ++ q :: text) =
      m ++ q :: text := by
  by_cases hcn : c = '\n'
  · subst hcn
    exact ⟨l, List.suffix_cons _ l, rfl⟩
  by_cases hcr : c = '\r'
  · subst hcr
    refine ⟨behindReturn l, (behindReturn_suffix l).trans (List.suffix_cons _ l), ?_⟩
    rw [List.cons_append, lineFeed_cr, Option.getD_some]
    cases l with
    | nil => simp [behindReturn, hn]
    | cons d l => by_cases hd : d = '\n' <;> simp [behindReturn, hd]
  · exact ⟨c :: l, List.suffix_rfl, by rw [List.cons_append, lineFeed_of_ne hcn hcr]; rfl⟩

theorem closingQuote_append {q : Char} (hn : q ≠ '\n') (hr : q ≠ '\r') (h0 : q ≠ '\x00') {l : Text}
    (hl : q ∉ l) (hl0 : '\x00' ∉ l) (text : Text) {fuel : ℕ} (hfuel : l.length < fuel) (n : ℤ) :
    ∃ n', closingQuote (some q) fuel (l ++ q :: text) n = some (some (q :: text), n') := by
  induction fuel generalizing l n with
  | zero => exact absurd hfuel (Nat.not_lt_zero _)
  | succ fuel ih =>
    cases l with
    | nil =>
      obtain ⟨n', h⟩ := closingQuote_succ (some q) (show peek (q :: text) ≠ _ from h0)
        (by rw [lineFeed_of_ne hn hr]; rfl) fuel n
      exact ⟨n', by rw [List.nil_append, h, if_pos rfl]⟩
    | cons c l =>
      have hc0 : c ≠ '\x00' := fun h ↦ hl0 (h ▸ List.mem_cons_self)
      have hpeek : peek (c :: l ++ q :: text) ≠ '\x00' := hc0
      obtain ⟨m, hm, hfeed⟩ := exists_behind_feed hn c l text
      cases m with
      | nil =>
        obtain ⟨n', h⟩ := closingQuote_succ (some q) hpeek hfeed fuel n
        exact ⟨n', by rw [h, if_pos rfl]⟩
      | cons d m =>
        have hmem : ∀ e ∈ m, e ∈ c :: l := fun e he ↦ hm.subset (List.mem_cons_of_mem d he)
        have hdq : d ≠ q := fun h ↦ hl (h ▸ hm.subset List.mem_cons_self)
        have hlen := hm.length_le
        simp only [List.length_cons] at hlen hfuel
        obtain ⟨n', h⟩ := closingQuote_succ (some q) hpeek hfeed fuel n
        rw [h, if_neg fun h ↦ hdq (Option.some.inj h)]
        exact ih (fun h ↦ hl (hmem q h)) (fun h ↦ hl0 (hmem _ h)) (by omega) n'

/-! ### Scanning -/

section Scanning

variable {K : Type} {t : Scanner K} {c : Char} {rest : Text}

theorem skipSpace_vrmlSettings (ht : t.settings = vrmlSettings) :
    ∃ n, skipSpace t = some (t.moveToLine (skipText t.text) n) := by
  obtain ⟨hout, -⟩ | ⟨-, n, h⟩ := skipSpace_eq t
  · rw [RunsOut, ht] at hout
    exact absurd hout.1 (by decide)
  · rw [behindBlank, ht] at h
    exact ⟨n, h⟩

theorem moves_skipText (t : Scanner K) (n : ℤ) : Moves t (t.moveToLine (skipText t.text) n) :=
  ⟨rfl, rfl, skipBlank_suffix _ _ _⟩

/-- The scanner has moved on to where `rest` is left. -/
structure MovedTo (t : Scanner K) (rest : Text) (t' : Scanner K) : Prop extends Moves t t' where
  text_eq : t'.text = rest

theorem readQuotedString_of_ne (ht : t.settings = vrmlSettings) (h : skipText t.text = c :: rest)
    (hc : c ≠ '"') :
    ∃ t', readQuotedString false t = some (false, t') ∧ MovedTo t (c :: rest) t' := by
  obtain ⟨n, hspace⟩ := skipSpace_vrmlSettings ht
  refine ⟨t.moveToLine (skipText t.text) n, ?_, moves_skipText t n, h⟩
  rw [readQuotedString, hspace, Option.bind_some, if_neg, if_neg Bool.false_ne_true]
  show some (peek (skipText t.text)) ≠ t.settings.quoteChar
  rw [ht, h]
  exact fun hquote ↦ hc (Option.some.inj hquote)

theorem extractQuotedString_append (ht : t.settings = vrmlSettings) {l : Text} (hl : '"' ∉ l)
    (hl0 : '\x00' ∉ l) (h : t.text = '"' :: (l ++ '"' :: rest)) :
    ∃ t', extractQuotedString t = some (true, t') ∧ MovedTo t rest t' := by
  obtain ⟨n, hquote⟩ := closingQuote_append (by decide) (by decide) (by decide) hl hl0 rest
    (show l.length < (l ++ '"' :: rest).length + 1 by simp) t.lineNumber
  refine ⟨((t.moveToLine ('"' :: rest) n).assign (l ++ '"' :: rest)).moveTo rest, ?_,
    ⟨rfl, rfl, ?_⟩, rfl⟩
  · rw [extractQuotedString, h]
    dsimp only [advance]
    rw [ht, if_neg (by decide), show vrmlSettings.quoteChar = some '"' from rfl, hquote]
    rfl
  · show rest <:+ t.text
    exact h ▸ ⟨'"' :: (l ++ ['"']), by simp⟩

theorem readQuotedString_of_quote (ht : t.settings = vrmlSettings) {l : Text} (hl : '"' ∉ l)
    (hl0 : '\x00' ∉ l) (h : skipText t.text = '"' :: (l ++ '"' :: rest)) :
    ∃ t', readQuotedString false t = some (true, t') ∧ MovedTo t rest t' := by
  obtain ⟨n, hspace⟩ := skipSpace_vrmlSettings ht
  obtain ⟨t', hquote, hmoved⟩ :=
    extractQuotedString_append (t := t.moveToLine (skipText t.text) n) ht hl hl0 h
  refine ⟨t', ?_, (moves_skipText t n).trans hmoved.toMoves, hmoved.text_eq⟩
  rw [readQuotedString, hspace, Option.bind_some, if_pos, hquote]
  show some (peek (skipText t.text)) = t.settings.quoteChar
  rw [ht, h]
  rfl

theorem peekChar_eq (ht : t.settings = vrmlSettings) (h : skipText t.text = c :: rest) :
    ∃ t', peekChar t = some (c, t') ∧ MovedTo t (c :: rest) t' := by
  obtain ⟨n, hspace⟩ := skipSpace_vrmlSettings ht
  refine ⟨t.moveToLine (skipText t.text) n, ?_, moves_skipText t n, h⟩
  rw [peekChar, hspace, Option.map_some]
  show some (peek (skipText t.text), _) = _
  rw [h]
  rfl

theorem readChar_of_isgraph (ht : t.settings = vrmlSettings) (h : skipText t.text = c :: rest)
    (hc : isgraph c = true) : ∃ t', readChar t = some (true, t') ∧ MovedTo t rest t' := by
  obtain ⟨n, hspace⟩ := skipSpace_vrmlSettings ht
  have hsuffix : c :: rest <:+ t.text := h ▸ (moves_skipText t n).text
  refine ⟨((t.moveToLine (skipText t.text) n).setChar c).moveTo rest, ?_,
    ⟨rfl, rfl, (List.suffix_cons c rest).trans hsuffix⟩, rfl⟩
  rw [readChar, hspace, Option.bind_some]
  simp [Scanner.moveToLine, h, peek, hc, advance]

theorem readChar_of_not_isgraph (ht : t.settings = vrmlSettings) (h : skipText t.text = c :: rest)
    (hc : isgraph c = false) : ∃ t', readChar t = some (false, t') := by
  obtain ⟨n, hspace⟩ := skipSpace_vrmlSettings ht
  refine ⟨t.moveToLine (skipText t.text) n, ?_⟩
  rw [readChar, hspace, Option.bind_some]
  simp [Scanner.moveToLine, h, peek, hc]

end Scanning

/-! ### The loop -/

theorem mem_of_mem_blank {c : Char} (h : c ∈ '#' :: blankChars) : c ∈ '#' :: '"' :: blankChars := by
  rw [List.mem_cons] at h
  exact h.elim (fun h ↦ h ▸ List.mem_cons_self) fun h ↦
    List.mem_cons_of_mem '#' (List.mem_cons_of_mem '"' h)

section Skipping

variable {K : Type} {s : Parser K} {c : Char} {rest : Text} (close : Char) (message : String)

theorem skipTurn_of_quote (hs : s.scanner.settings = vrmlSettings) {l : Text} (hl : '"' ∉ l)
    (hl0 : '\x00' ∉ l) (h : skipText s.scanner.text = '"' :: (l ++ '"' :: rest)) :
    ∃ t, skipTurn close message () s = .ok (.inl (), s.setScanner t) ∧
      MovedTo s.scanner rest t := by
  obtain ⟨t, hquote, ht⟩ := readQuotedString_of_quote hs hl hl0 h
  exact ⟨t, by rw [skipTurn, bind_of_ok (scan_of_eq_some hquote)]; rfl, ht⟩

/-- At a character that does not start a string, `readQuotedString` and `peekChar` skip blanks. -/
theorem skipTurn_of_ne (hs : s.scanner.settings = vrmlSettings) (hc : c ∉ '#' :: '"' :: blankChars)
    (h : skipText s.scanner.text = c :: rest) :
    ∃ t, MovedTo s.scanner (c :: rest) t ∧ skipTurn close message () s =
      (if c = close then pure (.inr ())
      else do if ← scan readChar then pure (.inl ()) else throwException message :
        ParseM K (Unit ⊕ Unit)) (s.setScanner t) := by
  have hquote : c ≠ '"' := fun h ↦ hc (by simp [h])
  have hblank : c ∉ '#' :: blankChars := fun h ↦ hc (mem_of_mem_blank h)
  obtain ⟨t, hread, ht⟩ := readQuotedString_of_ne hs h hquote
  obtain ⟨t', hpeek, ht'⟩ := peekChar_eq (ht.settings.trans hs)
    (by rw [ht.text_eq, skipText_of_notMem hblank])
  refine ⟨t', ⟨ht.toMoves.trans ht'.toMoves, ht'.text_eq⟩, ?_⟩
  rw [skipTurn, bind_of_ok (scan_of_eq_some hread), if_neg Bool.false_ne_true,
    bind_of_ok (scan_of_eq_some (s := s.setScanner t) (by simpa using hpeek))]
  rw [Parser.setScanner_setScanner]

theorem skipTurn_of_isgraph (hs : s.scanner.settings = vrmlSettings)
    (hc : c ∉ '#' :: '"' :: blankChars) (hclose : c ≠ close) (hgraph : isgraph c = true)
    (h : skipText s.scanner.text = c :: rest) :
    ∃ t, skipTurn close message () s = .ok (.inl (), s.setScanner t) ∧
      MovedTo s.scanner rest t := by
  obtain ⟨t, ht, hturn⟩ := skipTurn_of_ne close message hs hc h
  have hblank : c ∉ '#' :: blankChars := fun h ↦ hc (mem_of_mem_blank h)
  obtain ⟨t', hread, ht'⟩ := readChar_of_isgraph (ht.settings.trans hs)
    (by rw [ht.text_eq, skipText_of_notMem hblank]) hgraph
  refine ⟨t', ?_, ht.toMoves.trans ht'.toMoves, ht'.text_eq⟩
  rw [hturn, if_neg hclose,
    bind_of_ok (scan_of_eq_some (s := s.setScanner t) (by simpa using hread)),
    Parser.setScanner_setScanner]
  rfl

theorem skipTurn_of_not_isgraph (hs : s.scanner.settings = vrmlSettings)
    (hc : c ∉ '#' :: '"' :: blankChars) (hclose : c ≠ close) (hgraph : isgraph c = false)
    (h : skipText s.scanner.text = c :: rest) :
    ∃ n, skipTurn close message () s = .error (.exception message n) := by
  obtain ⟨t, ht, hturn⟩ := skipTurn_of_ne close message hs hc h
  have hblank : c ∉ '#' :: blankChars := fun h ↦ hc (mem_of_mem_blank h)
  obtain ⟨t', hread⟩ := readChar_of_not_isgraph (ht.settings.trans hs)
    (by rw [ht.text_eq, skipText_of_notMem hblank]) hgraph
  refine ⟨((s.setScanner t).setScanner t').scanner.lineNumber, ?_⟩
  rw [hturn, if_neg hclose,
    bind_of_ok (scan_of_eq_some (s := s.setScanner t) (by simpa using hread))]
  rfl

theorem skipTurn_of_close (hs : s.scanner.settings = vrmlSettings)
    (hc : close ∉ '#' :: '"' :: blankChars) (h : skipText s.scanner.text = close :: rest) :
    ∃ t, skipTurn close message () s = .ok (.inr (), s.setScanner t) ∧
      MovedTo s.scanner (close :: rest) t := by
  obtain ⟨t, ht, hturn⟩ := skipTurn_of_ne close message hs hc h
  exact ⟨t, by rw [hturn, if_pos rfl]; rfl, ht⟩

/-- An item that is not a blank is read in one turn. -/
theorem skipTurn_item {i : Item} (hs : s.scanner.settings = vrmlSettings) (hi : i.IsPassed)
    (h : skipText s.scanner.text = skipText (i.text ++ rest)) :
    skipText (i.text ++ rest) = skipText rest ∨
      ∃ t, skipTurn '}' message () s = .ok (.inl (), s.setScanner t) ∧
        MovedTo s.scanner rest t := by
  cases i with
  | blank c hc => exact .inl (skipText_blank hc rest)
  | comment l feed hl hfeed =>
    refine .inl ?_
    rw [Item.text, List.cons_append, List.append_assoc]
    exact skipText_comment hl hfeed rest
  | quoted l hl hl0 =>
    rw [Item.text, List.cons_append, skipText_of_notMem (by decide), List.append_assoc] at h
    exact .inr (skipTurn_of_quote '}' message hs hl hl0 h)
  | openBrace =>
    refine .inr (skipTurn_of_isgraph (c := '{') '}' message hs (by decide) (by decide) (by decide)
      (h.trans ?_))
    exact skipText_of_notMem (by decide) rest
  | closeBrace => exact hi.elim
  | character c hc =>
    have hmark : c ∉ '#' :: '"' :: blankChars := fun h ↦ hc (by
      simp only [markChars, List.mem_cons] at h ⊢
      tauto)
    have hclose : c ≠ '}' := fun h ↦ hc (h ▸ by decide)
    refine .inr (skipTurn_of_isgraph '}' message hs hmark hclose hi (h.trans ?_))
    exact skipText_of_notMem (fun h ↦ hmark (mem_of_mem_blank h)) rest

/-- The loop goes on behind what it passes. -/
theorem iterate_skipTurn (hitems : ∀ i ∈ items, i.IsPassed) {e : Stop}
    (hs : s.scanner.settings = vrmlSettings)
    (h : skipText s.scanner.text = skipText (itemsText items ++ rest)) (fuel : ℕ) :
    ∃ t fuel', fuel ≤ fuel' ∧ Moves s.scanner t ∧ skipText t.text = skipText rest ∧
      iterate e (skipTurn '}' message) (items.length + fuel) () s =
        iterate e (skipTurn '}' message) fuel' () (s.setScanner t) := by
  induction items generalizing s fuel with
  | nil => exact ⟨s.scanner, fuel, Nat.le_refl _, .refl _, h, by simp⟩
  | cons i items ih =>
    obtain ⟨hi, hitems⟩ := List.forall_mem_cons.1 hitems
    rw [itemsText, List.flatMap_cons, List.append_assoc] at h
    rw [List.length_cons, Nat.add_assoc, Nat.add_comm 1]
    obtain hblank | ⟨t, hturn, ht⟩ := skipTurn_item message hs hi h
    · obtain ⟨t, fuel', hle, ht⟩ := ih hitems hs (h.trans hblank) (fuel + 1)
      exact ⟨t, fuel', Nat.le_of_succ_le hle, ht⟩
    · obtain ⟨t', fuel', hle, ht', htext, hrun⟩ := ih (s := s.setScanner t) hitems
        (by simpa using ht.settings.trans hs) (by simp [ht.text_eq, itemsText]) fuel
      refine ⟨t', fuel', hle, ht.toMoves.trans (by simpa using ht'), htext, ?_⟩
      rw [← Nat.add_assoc, iterate_of_inl hturn, hrun, Parser.setScanner_setScanner]

theorem skipTo_of_isPassed (hitems : ∀ i ∈ items, i.IsPassed)
    (hs : s.scanner.settings = vrmlSettings) (h : s.scanner.text = itemsText items ++ '}' :: rest) :
    ∃ t, skipTo '}' message s = .ok ((), s.setScanner t) ∧ MovedTo s.scanner ('}' :: rest) t := by
  have hlen := length_le_itemsText items
  obtain ⟨fuel, hfuel⟩ : ∃ fuel, s.size + 1 = items.length + (fuel + 1) :=
    Nat.exists_eq_add_of_le (m := items.length + 1) (n := s.size + 1)
      (by rw [Parser.size, h, List.length_append]; omega) |>.imp fun _ h ↦ by omega
  obtain ⟨t, fuel', hle, ht, htext, hrun⟩ := iterate_skipTurn message
    (e := .endless .skippedNode) hitems hs (congrArg skipText h) (fuel + 1)
  obtain ⟨fuel', rfl⟩ := Nat.exists_eq_add_of_lt (Nat.lt_of_lt_of_le (Nat.succ_pos fuel) hle)
  obtain ⟨t', hturn, ht'⟩ := skipTurn_of_close (s := s.setScanner t) '}' message
    (by simpa using ht.settings.trans hs) (by decide) (show skipText _ = '}' :: rest by
      rw [Parser.scanner_setScanner, htext, skipText_of_notMem (by decide)])
  rw [Parser.scanner_setScanner] at ht'
  refine ⟨t', ?_, ht.trans ht'.toMoves, ht'.text_eq⟩
  rw [skipTo, loop, hfuel, hrun, Nat.zero_add, iterate_of_inr hturn, Parser.setScanner_setScanner]

theorem exists_first_not_isPassed (h : ¬∀ i ∈ items, i.IsPassed) :
    ∃ l i l', items = l ++ i :: l' ∧ (∀ j ∈ l, j.IsPassed) ∧ ¬i.IsPassed := by
  induction items with
  | nil => exact absurd (fun i hi ↦ (nomatch hi)) h
  | cons i items ih =>
    by_cases hi : i.IsPassed
    · obtain ⟨l, j, l', rfl, hl, hj⟩ := ih fun hitems ↦ h (List.forall_mem_cons.2 ⟨hi, hitems⟩)
      exact ⟨i :: l, j, l', rfl, List.forall_mem_cons.2 ⟨hi, hl⟩, hj⟩
    · exact ⟨[], i, items, rfl, fun j hj ↦ (nomatch hj), hi⟩

/-- The loop does not get over a closing brace or a character that is not graphic. -/
theorem skipTo_of_not_isPassed (hitems : ¬∀ i ∈ items, i.IsPassed)
    (hs : s.scanner.settings = vrmlSettings) (h : s.scanner.text = itemsText items ++ '}' :: rest) :
    (∃ e, skipTo '}' message s = .error e) ∨
      ∃ t rest', skipTo '}' message s = .ok ((), s.setScanner t) ∧
        MovedTo s.scanner ('}' :: rest') t ∧ rest.length < rest'.length := by
  obtain ⟨l, i, l', rfl, hl, hi⟩ := exists_first_not_isPassed hitems
  have htext : s.scanner.text = itemsText l ++ (i.text ++ (itemsText l' ++ '}' :: rest)) := by
    rw [h]
    simp [itemsText]
  cases i with
  | closeBrace =>
    obtain ⟨t, hskip, ht⟩ := skipTo_of_isPassed message hl hs htext
    refine .inr ⟨t, itemsText l' ++ '}' :: rest, hskip, ht, ?_⟩
    rw [List.length_append, List.length_cons]
    omega
  | character c hc =>
    have hmark : c ∉ '#' :: '"' :: blankChars := fun h ↦ hc (by
      simp only [markChars, List.mem_cons] at h ⊢
      tauto)
    have hclose : c ≠ '}' := fun h ↦ hc (h ▸ by decide)
    have hlen : l.length ≤ s.size := by
      have := length_le_itemsText l
      rw [Parser.size, htext, List.length_append]
      omega
    obtain ⟨t, fuel', hle, ht, hblank, hrun⟩ := iterate_skipTurn message
      (e := .endless .skippedNode) hl hs (congrArg skipText htext) (s.size - l.length + 1)
    obtain ⟨fuel', rfl⟩ := Nat.exists_eq_add_of_lt (Nat.lt_of_lt_of_le (Nat.succ_pos _) hle)
    obtain ⟨n, hturn⟩ := skipTurn_of_not_isgraph (s := s.setScanner t) '}' message
      (by simpa using ht.settings.trans hs) hmark hclose
      (Bool.eq_false_iff.2 hi) (by
        rw [Parser.scanner_setScanner, hblank]
        exact skipText_of_notMem (fun h ↦ hmark (mem_of_mem_blank h)) _)
    refine .inl ⟨.exception message n, ?_⟩
    rw [skipTo, loop, show s.size + 1 = l.length + (s.size - l.length + 1) by omega, hrun,
      Nat.zero_add, iterate_of_error hturn]
  | _ => exact absurd trivial hi

/-! ### Nodes -/

/-- The computation `p` goes on like `q`, with the scanner moved to where `rest` is left. -/
def GoesOn {α : Type} (p q : ParseM K α) (s : Parser K) (rest : Text) : Prop :=
  ∃ t, p s = q (s.setScanner t) ∧ MovedTo s.scanner rest t

theorem Parser.setScanner_injective (s : Parser K) : Function.Injective s.setScanner := by
  intro t t' h
  have := congrArg Parser.scanner h
  rwa [Parser.scanner_setScanner, Parser.scanner_setScanner] at this

theorem goesOn_skipUnsupportedNode_iff (nodeTypeName : String) (items : List Item)
    (hs : s.scanner.settings = vrmlSettings) (h : s.scanner.text = itemsText items ++ '}' :: rest) :
    GoesOn (skipUnsupportedNode nodeTypeName) (newNode (.unsupported nodeTypeName)) s
      ('}' :: rest) ↔ ∀ i ∈ items, i.IsPassed := by
  constructor
  · rintro ⟨t, hrun, ht⟩
    by_contra hitems
    obtain ⟨e, herror⟩ | ⟨t', rest', hskip, ht', hlt⟩ :=
      skipTo_of_not_isPassed "Node is not closed." hitems hs h
    · rw [skipUnsupportedNode, bind_of_error herror] at hrun
      cases hrun
    · rw [skipUnsupportedNode, bind_of_ok hskip] at hrun
      have hscanners := congrArg Parser.scanners (Prod.mk.inj (Except.ok.inj hrun)).2
      have heq : t' = t := Function.update_injective s.scanners s.current hscanners
      have htext := ht'.text_eq
      rw [heq, ht.text_eq, List.cons.injEq] at htext
      exact Nat.lt_irrefl _ (htext.2 ▸ hlt)
  · intro hitems
    obtain ⟨t, hskip, ht⟩ := skipTo_of_isPassed "Node is not closed." hitems hs h
    exact ⟨t, bind_of_ok hskip, ht⟩

theorem readChar_of_close {t : Scanner K} (ht : t.settings = vrmlSettings)
    (h : t.text = '}' :: rest) : ∃ t', readChar t = some (true, t') ∧ MovedTo t rest t' :=
  readChar_of_isgraph (c := '}') ht (by rw [h, skipText_of_notMem (by decide)]) (by decide)

theorem goesOn_skipScriptNode_iff (items : List Item) (hs : s.scanner.settings = vrmlSettings)
    (h : s.scanner.text = itemsText items ++ '}' :: rest) :
    GoesOn skipScriptNode (pure ()) s rest ↔ ∀ i ∈ items, i.IsPassed := by
  -- behind the closing brace at which the loop ends
  have hclose : ∀ {t rest'}, skipTo '}' "Script is not closed." s = .ok ((), s.setScanner t) →
      MovedTo s.scanner ('}' :: rest') t → ∃ t',
        skipScriptNode s = .ok ((), s.setScanner t') ∧ MovedTo s.scanner rest' t' := by
    intro t rest' hskip ht
    obtain ⟨t', hread, ht'⟩ := readChar_of_close (ht.settings.trans hs) ht.text_eq
    refine ⟨t', ?_, ht.toMoves.trans ht'.toMoves, ht'.text_eq⟩
    rw [skipScriptNode, bind_of_ok hskip,
      bind_of_ok (scan_of_eq_some (s := s.setScanner t) (by simpa using hread)),
      Parser.setScanner_setScanner]
    rfl
  constructor
  · rintro ⟨t, hrun, ht⟩
    by_contra hitems
    obtain ⟨e, herror⟩ | ⟨t', rest', hskip, ht', hlt⟩ :=
      skipTo_of_not_isPassed "Script is not closed." hitems hs h
    · rw [skipScriptNode, bind_of_error herror] at hrun
      cases hrun
    · obtain ⟨t'', hskip', ht''⟩ := hclose hskip ht'
      rw [hskip'] at hrun
      have heq := Parser.setScanner_injective s (Prod.mk.inj (Except.ok.inj hrun)).2
      rw [← ht''.text_eq, heq, ht.text_eq] at hlt
      exact Nat.lt_irrefl _ hlt
  · intro hitems
    obtain ⟨t, hskip, ht⟩ := skipTo_of_isPassed "Script is not closed." hitems hs h
    exact hclose hskip ht

/-- White space or a comment. -/
def Item.IsBlank : Item → Prop
  | blank _ _ => True
  | comment _ _ _ _ => True
  | _ => False

theorem skipText_front {front : List Item} (hfront : ∀ i ∈ front, i.IsBlank) (text : Text) :
    skipText (itemsText front ++ text) = skipText text := by
  induction front with
  | nil => rfl
  | cons i front ih =>
    obtain ⟨hi, hfront⟩ := List.forall_mem_cons.1 hfront
    rw [← ih hfront, itemsText, List.flatMap_cons, List.append_assoc]
    cases i with
    | blank c hc => exact skipText_blank hc _
    | comment l feed hl hfeed =>
      rw [Item.text, List.cons_append, List.append_assoc]
      exact skipText_comment hl hfeed _
    | _ => exact hi.elim

theorem isPassed_front_iff {front : List Item} (hfront : ∀ i ∈ front, i.IsBlank) (b : Body) :
    (∀ i ∈ front ++ .openBrace :: b.items, i.IsPassed) ↔ b.IsPlain := by
  rw [b.isPlain_iff]
  refine ⟨fun h i hi ↦ h i (by simp [hi]), fun h i hi ↦ ?_⟩
  rcases List.mem_append.1 hi with hi | hi
  · have := hfront i hi
    cases i <;> first | exact trivial | exact this.elim
  · exact List.forall_mem_cons.2 ⟨trivial, h⟩ i hi

theorem goesOn_readCharEx (hs : s.scanner.settings = vrmlSettings)
    (h : skipText s.scanner.text = c :: rest) :
    GoesOn (readCharEx c message) (pure ()) s rest := by
  obtain ⟨n, hspace⟩ := skipSpace_vrmlSettings hs
  have hsuffix : c :: rest <:+ s.scanner.text := h ▸ (moves_skipText s.scanner n).text
  refine ⟨(s.scanner.moveToLine (skipText s.scanner.text) n).moveTo rest, ?_,
    ⟨rfl, rfl, (List.suffix_cons c rest).trans hsuffix⟩, rfl⟩
  have hread : readCharOf c s.scanner =
      some (true, (s.scanner.moveToLine (skipText s.scanner.text) n).moveTo rest) := by
    rw [readCharOf, hspace, Option.bind_some]
    simp [Scanner.moveToLine, h, peek, advance]
  rw [readCharEx, expect, bind_of_ok (scan_of_eq_some hread)]
  rfl

end Skipping

section Nodes

variable {K : Type} [Field K] [LinearOrder K] [CMath K] {readNode : NodeCategory → ParseM K SFNode}
  {evalProtoInstance : ProtoInstance K → NodeCategory → ParseM K SFNode}
  {nodeCategory : NodeCategory} {s : Parser K} {rest : Text} {front : List Item} {b : Body}

theorem readSpecificNode_of_unsupported
    (hcategory : isCategoryOf unsupportedCategories nodeCategory = true) {word : String}
    (hword : word ∈ unsupportedNodes) (nodeTypeName : Text) :
    readSpecificNode readNode nodeCategory (symbolOf word) nodeTypeName =
      skipUnsupportedNode word >>= pure := by
  have hfind : ∀ word ∈ unsupportedNodes,
      nodeReaders.find? (fun r ↦ symbolOf r.typeName = symbolOf word) = none ∧
        unsupportedNodes.find? (fun word' ↦ symbolOf word' = symbolOf word) = some word := by
    decide +kernel
  rw [readSpecificNode, (hfind word hword).1, (hfind word hword).2]
  dsimp only
  congr
  funext node
  rw [checkCategory, if_pos hcategory]

/-- The symbols that `readNode` looks for before it reads a brace. -/
def keywords : List ℤ :=
  ["Inline", "PROTO", "USE", "ROUTE", "Script", "EXTERNPROTO", "DEF"].map symbolOf

theorem readNodeOf_of_notMem {symbol : ℤ} (h0 : symbol ≠ 0) (h : symbol ∉ keywords)
    (nodeTypeName : Text) :
    readNodeOf readNode evalProtoInstance nodeCategory symbol nodeTypeName =
      readEntity readNode evalProtoInstance nodeCategory [] symbol nodeTypeName := by
  simp only [keywords, List.map_cons, List.map_nil, List.mem_cons, List.not_mem_nil, or_false,
    not_or] at h
  simp [readNodeOf, h0, h]

/-- A node that is not supported is read as one without fields, and the text behind it is left. -/
theorem goesOn_unsupported (hcategory : isCategoryOf unsupportedCategories nodeCategory = true)
    {word : String} (hword : word ∈ unsupportedNodes) (hfront : ∀ i ∈ front, i.IsBlank)
    (hs : s.scanner.settings = vrmlSettings)
    (h : s.scanner.text = itemsText front ++ '{' :: (b.text ++ '}' :: rest)) (hb : b.IsPlain)
    (nodeTypeName : Text) :
    GoesOn (readNodeOf readNode evalProtoInstance nodeCategory (symbolOf word) nodeTypeName)
      (some <$> newNode (.unsupported word)) s rest := by
  have hsymbol : ∀ word ∈ unsupportedNodes, symbolOf word ≠ 0 ∧ symbolOf word ∉ keywords := by
    decide +kernel
  obtain ⟨t, hopen, ht⟩ := goesOn_readCharEx (c := '{')
    ("The entity of a " ++ String.ofList nodeTypeName ++
      " node does not correctly begin with '\x7b'") hs
    (by rw [h, skipText_front hfront, skipText_of_notMem (by decide)])
  obtain ⟨t', hskip, ht'⟩ := (goesOn_skipUnsupportedNode_iff (s := s.setScanner t) word b.items
    (by simpa using ht.settings.trans hs)
    (by rw [Parser.scanner_setScanner, ht.text_eq]; rfl)).2 (b.isPlain_iff.1 hb)
  rw [Parser.scanner_setScanner] at ht'
  rw [Parser.setScanner_setScanner] at hskip
  -- the node is on the heap, and the closing brace is left
  set u : Parser K := { s.setScanner t' with nodes := s.nodes ++ [⟨.unsupported word, []⟩] } with hu
  have hscanner : u.scanner = t' := Parser.scanner_setScanner s t'
  obtain ⟨t'', hclose, ht''⟩ := goesOn_readCharEx (s := u)
    ("A " ++ String.ofList nodeTypeName ++ " node is not correctly closed with '\x7d'")
    (by rw [hscanner]; exact (ht.toMoves.trans ht'.toMoves).settings.trans hs)
    (show skipText _ = '}' :: rest by rw [hscanner, ht'.text_eq, skipText_of_notMem (by decide)])
  rw [hscanner] at ht''
  refine ⟨t'', ?_, (ht.toMoves.trans ht'.toMoves).trans ht''.toMoves, ht''.text_eq⟩
  obtain ⟨h0, hkeyword⟩ := hsymbol word hword
  have hnode : (skipUnsupportedNode word >>= pure) (s.setScanner t) = .ok (s.nodes.length, u) :=
    bind_of_ok hskip
  rw [readNodeOf_of_notMem h0 hkeyword, readEntity, bind_of_ok hopen, if_pos h0,
    readSpecificNode_of_unsupported hcategory hword, bind_of_ok hnode]
  dsimp only
  rw [bind_of_ok hclose]
  show Except.ok (some s.nodes.length, u.setScanner t'') = Except.ok (some s.nodes.length,
    { s.setScanner t'' with nodes := s.nodes ++ [⟨.unsupported word, []⟩] })
  rw [hu]
  simp [Parser.setScanner, Parser.current]

/-- A script is skipped as if it were not there. -/
theorem goesOn_script (hfront : ∀ i ∈ front, i.IsBlank) (hs : s.scanner.settings = vrmlSettings)
    (h : s.scanner.text = itemsText front ++ '{' :: (b.text ++ '}' :: rest)) (hb : b.IsPlain)
    (nodeTypeName : Text) :
    GoesOn (readNodeOf readNode evalProtoInstance nodeCategory (symbolOf "Script") nodeTypeName)
      (readNode nodeCategory) s rest := by
  have hitems : ∀ i ∈ front ++ .openBrace :: b.items, i.IsPassed :=
    (isPassed_front_iff hfront b).2 hb
  obtain ⟨t, hskip, ht⟩ := (goesOn_skipScriptNode_iff (front ++ .openBrace :: b.items) hs
    (show _ = _ ++ '}' :: rest by simp [h, itemsText, Body.text, Item.text])).2 hitems
  refine ⟨t, ?_, ht⟩
  have hsymbol : symbolOf "Script" ≠ 0 ∧
      symbolOf "Script" ∉ ["Inline", "PROTO", "USE", "ROUTE"].map symbolOf := by
    decide +kernel
  simp only [List.map_cons, List.map_nil, List.mem_cons, List.not_mem_nil, or_false, not_or]
    at hsymbol
  simp only [readNodeOf, hsymbol, if_false]
  exact bind_of_ok hskip

/-- A node is skipped up to the closing brace that matches its opening brace, or a script behind it,
exactly when there is neither a brace nor a character that is not graphic in its body, but for
strings and comments. What follows is then read as if the node were not there. -/
theorem skipsWholeNode_iff (s s' : Parser K) (hs : s.scanner.settings = vrmlSettings)
    (hs' : s'.scanner.settings = vrmlSettings) (nodeTypeName : String) (b : Body)
    (front : List Item) (hfront : ∀ i ∈ front, i.IsBlank) (rest : Text)
    (h : s.scanner.text = b.text ++ '}' :: rest)
    (h' : s'.scanner.text = itemsText front ++ '{' :: (b.text ++ '}' :: rest)) :
    (GoesOn (skipUnsupportedNode nodeTypeName) (newNode (.unsupported nodeTypeName)) s
        ('}' :: rest) ↔ b.IsPlain) ∧
      (GoesOn skipScriptNode (pure ()) s' rest ↔ b.IsPlain) ∧
      (b.IsPlain → ∀ (readNode : NodeCategory → ParseM K SFNode) evalProtoInstance nodeCategory
        name,
        GoesOn (readNodeOf readNode evalProtoInstance nodeCategory (symbolOf "Script") name)
            (readNode nodeCategory) s' rest ∧
          (isCategoryOf unsupportedCategories nodeCategory = true → ∀ word ∈ unsupportedNodes,
            GoesOn (readNodeOf readNode evalProtoInstance nodeCategory (symbolOf word) name)
              (some <$> newNode (.unsupported word)) s' rest)) := by
  refine ⟨?_, ?_, fun hb readNode eval nodeCategory name ↦ ⟨?_, fun hcategory word hword ↦ ?_⟩⟩
  · rw [b.isPlain_iff]
    exact goesOn_skipUnsupportedNode_iff nodeTypeName b.items hs h
  · rw [← isPassed_front_iff hfront]
    exact goesOn_skipScriptNode_iff _ hs' (by simp [h', itemsText, Body.text, Item.text])
  · exact goesOn_script hfront hs' h' hb name
  · exact goesOn_unsupported hcategory hword hfront hs' h' hb name

/-- The body ` url "a}" # }` of a node, with a line feed. -/
def audioBody : Body where
  items := [.blank ' ' (by decide), .character 'u' (by decide), .character 'r' (by decide),
    .character 'l' (by decide), .blank ' ' (by decide), .quoted ['a', '}'] (by decide) (by decide),
    .blank ' ' (by decide), .comment [' ', '}'] '\n' (by simp) (.inr rfl)]
  balanced := rfl

/-- The body ` source A { } ` of a node. -/
def soundBody : Body where
  items := [.blank ' ' (by decide), .character 's' (by decide), .blank ' ' (by decide),
    .character 'A' (by decide), .blank ' ' (by decide), .openBrace, .blank ' ' (by decide),
    .closeBrace, .blank ' ' (by decide)]
  balanced := rfl

/-- A parser that is at the start of a text. -/
def parserAt (text : Text) : Parser ℚ where
  scanners := fun _ ↦ ⟨vrmlSettings, text, text, 0, none, [], '\x00', 0, 1⟩
  protos := []
  protoMap := []
  defNodeMap := []
  nodes := []
  instances := []
  protoInstanceActualNodeExtractionMode := true

theorem skipsWholeNode_audioBody :
    GoesOn (skipUnsupportedNode "AudioClip") (newNode (.unsupported "AudioClip"))
      (parserAt (audioBody.text ++ ['}'])) ['}'] :=
  (skipsWholeNode_iff (parserAt (audioBody.text ++ ['}']))
    (parserAt ('{' :: (audioBody.text ++ ['}']))) rfl rfl "AudioClip" audioBody []
    (fun i hi ↦ (nomatch hi)) [] rfl rfl).1.2 (by
      simp only [Body.IsPlain, audioBody, List.forall_mem_cons, List.not_mem_nil, false_imp_iff,
        implies_true, and_true, Item.IsPlain, Item.IsPassed]
      decide)

/-- A node inside of a node that is skipped ends it. -/
theorem not_skipsWholeNode_soundBody :
    ¬GoesOn (skipUnsupportedNode "Sound") (newNode (.unsupported "Sound"))
        (parserAt (soundBody.text ++ ['}'])) ['}'] ∧
      ¬GoesOn skipScriptNode (pure ()) (parserAt ('{' :: (soundBody.text ++ ['}']))) [] := by
  have hclose : Item.closeBrace ∈ soundBody.items := by simp [soundBody]
  constructor
  · rw [goesOn_skipUnsupportedNode_iff "Sound" soundBody.items rfl rfl]
    exact fun h ↦ h _ hclose
  · rw [goesOn_skipScriptNode_iff (.openBrace :: soundBody.items) rfl rfl]
    exact fun h ↦ h _ (List.mem_cons_of_mem _ hclose)

end Nodes

end OpenHRP.Vrml
