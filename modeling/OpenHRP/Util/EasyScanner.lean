import OpenHRP.Foundations.Literals
import Mathlib.Algebra.Field.Basic
import Mathlib.Algebra.Group.Int.Defs

/-!
# The lexical scanner

`EasyScanner` reads numbers, words, quoted strings and lines from a text in memory. A pointer into
the text is modelled by the characters from there to the terminating NUL: the NUL itself is what is
read when there are none left, and a pointer cannot be moved behind it. An operation that would move
or read outside the buffer has no result.

Characters stand for bytes, and numbers are exact.
-/

namespace OpenHRP.EasyScanner

/-! ### Text pointers and character classes -/

/-- What is left of the text at a pointer. -/
abbrev Text := List Char

/-- `*text`. -/
def peek (text : Text) : Char :=
  text.headD '\x00'

/-- `text++`. Behind the terminating NUL there is nothing. -/
def advance : Text → Option Text
  | [] => none
  | _ :: text => some text

def isdigit (c : Char) : Bool :=
  c.isDigit

def isalpha (c : Char) : Bool :=
  c.isAlpha

def isalnum (c : Char) : Bool :=
  c.isAlphanum

def isascii (c : Char) : Bool :=
  c.toNat < 128

def isspace (c : Char) : Bool :=
  c = ' ' || 9 ≤ c.toNat && c.toNat ≤ 13

def iscntrl (c : Char) : Bool :=
  c.toNat < 32 || c.toNat = 127

def isgraph (c : Char) : Bool :=
  33 ≤ c.toNat && c.toNat ≤ 126

def ispunct (c : Char) : Bool :=
  isgraph c && !isalnum c

/-- The value of a digit, also of a hexadecimal one. -/
def digitValue (c : Char) : ℕ :=
  if isdigit c then c.toNat - '0'.toNat
  else if 'a' ≤ c && c ≤ 'f' then c.toNat - 'a'.toNat + 10
  else if 'A' ≤ c && c ≤ 'F' then c.toNat - 'A'.toNat + 10
  else 16

/-! ### Numbers -/

/-- The base of a number that starts here, and the number without the prefix `0x`. -/
def numberBase : Text → ℕ × Text
  | '0' :: 'x' :: c :: text =>
    if digitValue c < 16 then (16, c :: text) else (8, '0' :: 'x' :: c :: text)
  | '0' :: 'X' :: c :: text =>
    if digitValue c < 16 then (16, c :: text) else (8, '0' :: 'X' :: c :: text)
  | '0' :: text => (8, '0' :: text)
  | text => (10, text)

/-- A sign, if there is one: whether it is a minus. -/
def readSign : Text → Bool × Text
  | '+' :: text => (false, text)
  | '-' :: text => (true, text)
  | text => (false, text)

/-- `strtol(text, &tail, 0)`, converted to `int`, and the tail. -/
def strtol (text : Text) : ℤ × Text :=
  let (negative, number) := readSign (text.dropWhile isspace)
  let (base, number) := numberBase number
  let digits := number.takeWhile fun c ↦ digitValue c < base
  if digits = [] then (0, text)
  else
    let value : ℤ := digits.foldl (fun v c ↦ v * base + digitValue c) 0
    let value := if negative then -value else value
    -- out of range, the result is the nearest `long`
    let value := max (-2 ^ 63) (min (2 ^ 63 - 1) value)
    ((BitVec.ofInt 32 value).toInt, number.drop digits.length)

section Double

variable {K : Type*} [Field K]

/-- `value = value * 10.0 + (*nptr - '0')`, as long as there are digits. -/
def readDigits : K → Text → K × Text
  | value, [] => (value, [])
  | value, c :: text =>
    if isdigit c then readDigits (value * (10 : ℕ) + (digitValue c : ℕ)) text
    else (value, c :: text)

/-- `value += small * (*nptr - '0')`, as long as there are digits. -/
def readDecimals : K → K → Text → K × Text
  | value, _, [] => (value, [])
  | value, small, c :: text =>
    if isdigit c then
      readDecimals (value + small * (digitValue c : ℕ)) (small * ((10 : ℕ) : K)⁻¹) text
    else (value, c :: text)

/-- The digits of an exponent. -/
def readExponent : ℕ → Text → ℕ × Text
  | p, [] => (p, [])
  | p, c :: text => if isdigit c then readExponent (p * 10 + digitValue c) text else (p, c :: text)

/-- The end of `mystrtod`: the tail is `text` for a valid number. -/
def finishDouble (org : Text) (negative valid : Bool) (value : K) (text : Text) :
    Option K × Text :=
  (some (if negative then -value else value), if valid then text else org)

/-- The part of `mystrtod` behind the sign and `nan`. -/
def readMagnitude (org : Text) (negative : Bool) (text : Text) : Option K × Text :=
  let valid := isdigit (peek text)
  let (value, text) := readDigits (0 : K) text
  let (valid, value, text) :=
    match text with
    | '.' :: text =>
      let (value, rest) := readDecimals value ((10 : ℕ) : K)⁻¹ text
      (isdigit (peek text), value, rest)
    | text => (valid, value, text)
  if valid && (peek text = 'e' || peek text = 'E') then
    let (negativeExponent, text) := readSign (text.drop 1)
    let valid := isdigit (peek text)
    let (p, text) := readExponent 0 text
    finishDouble org negative valid
      (if valid then value * ((10 : ℕ) : K) ^ (if negativeExponent then -(p : ℤ) else p) else value)
      text
  else finishDouble org negative valid value text

/-- `mystrtod`: the number, which is `none` for NaN, and the tail. -/
def mystrtod (org : Text) : Option K × Text :=
  let (negative, text) := readSign org
  match text with
  | [] => readMagnitude org negative []
  | c :: rest =>
    if c = 'n' || c = 'N' then
      if peek rest = 'a' || peek rest = 'A' then
        let rest := rest.drop 1
        if peek rest = 'n' || peek rest = 'N' then (none, rest.drop 1)
        else readMagnitude org negative rest
      else (some 0, org)
    else readMagnitude org negative (c :: rest)

end Double

/-! ### The scanner -/

/-- `TokenType`. -/
inductive TokenType where
  | none
  | space
  | alphabet
  | integer
  | double
  | word
  | string
  | siglum
  | lf
  | eof
  deriving DecidableEq, Repr

/-- What can be set in a scanner. There may be no comment character and no quote character. -/
structure Settings where
  commentChar : Option Char
  quoteChar : Option Char
  isLineOriented : Bool
  whiteSpaceChars : List Char
  symbols : List (String × ℤ)
  /-- `setCommentChar` takes NUL for no comment character. -/
  commentChar_ne : commentChar ≠ some '\x00'

/-- The members of an `EasyScanner`. -/
structure Scanner (K : Type*) where
  settings : Settings
  textBuf : Text
  text : Text
  intValue : ℤ
  doubleValue : Option K
  stringValue : Text
  charValue : Char
  symbolValue : ℤ
  lineNumber : ℤ

namespace Scanner

variable {K : Type*} (s : Scanner K)

/-- The scanner with the pointer moved. -/
def moveTo (text : Text) : Scanner K :=
  { s with text := text }

/-- The scanner with the pointer moved to another line. -/
def moveToLine (text : Text) (lineNumber : ℤ) : Scanner K :=
  { s with text := text, lineNumber := lineNumber }

/-- `stringValue.assign(org, text - org)`. -/
def assign (org : Text) : Scanner K :=
  { s with stringValue := org.take (org.length - s.text.length) }

def setInt (value : ℤ) : Scanner K :=
  { s with intValue := value }

def setDouble (value : Option K) : Scanner K :=
  { s with doubleValue := value }

def setChar (value : Char) : Scanner K :=
  { s with charValue := value }

def setSymbol (value : ℤ) : Scanner K :=
  { s with symbolValue := value }

/-- `getSymbolID`. -/
def getSymbolID (symbol : Text) : ℤ :=
  (s.settings.symbols.lookup (String.ofList symbol)).getD 0

end Scanner

/-! ### White space, comments and line feeds -/

/-- A line feed: what is behind it, if there is one. -/
def lineFeed : Text → Option Text
  | '\n' :: text => some text
  | '\r' :: '\n' :: text => some text
  | '\r' :: text => some text
  | _ => none

/-- `skipToLineEnd`. -/
def skipToLineEnd : Text → Text
  | [] => []
  | c :: text => if c = '\r' || c = '\n' || c = '\x00' then c :: text else skipToLineEnd text

/-- The inner loop of `skipSpace`, over the white-space characters. -/
def skipWhite (whiteSpaceChars : List Char) : Text → Option Text
  | [] => if '\x00' ∈ whiteSpaceChars then none else some []
  | c :: text => if c ∈ whiteSpaceChars then skipWhite whiteSpaceChars text else some (c :: text)

/-- The comment that `skipSpace` skips. -/
def skipComment (commentChar : Option Char) : Text → Text
  | [] => []
  | c :: text => if some c = commentChar then skipToLineEnd text else c :: text

/-- The loop of `skipSpace`. Every turn but the last one takes a line feed, so that the number of
characters bounds the number of turns. -/
def skipSpaceLoop (settings : Settings) : ℕ → Text → ℤ → Option (Text × ℤ)
  | 0, _, _ => none
  | fuel + 1, text, lineNumber =>
    match skipWhite settings.whiteSpaceChars text with
    | none => none
    | some text =>
      let text := skipComment settings.commentChar text
      if settings.isLineOriented then some (text, lineNumber)
      else
        match lineFeed text with
        | some text => skipSpaceLoop settings fuel text (lineNumber + 1)
        | none => some (text, lineNumber)

section Operations

variable {K : Type*}

/-- `skipSpace`. -/
def skipSpace (s : Scanner K) : Option (Scanner K) :=
  (skipSpaceLoop s.settings (s.text.length + 1) s.text s.lineNumber).map fun r ↦
    s.moveToLine r.1 r.2

/-- `readLF0`. -/
def readLF0 (s : Scanner K) : Bool × Scanner K :=
  match lineFeed s.text with
  | some text => (true, s.moveToLine text (s.lineNumber + 1))
  | none => (false, s)

/-- `readLF`. -/
def readLF (s : Scanner K) : Option (Bool × Scanner K) :=
  (skipSpace s).map readLF0

/-- `readLFEOF`. -/
def readLFEOF (s : Scanner K) : Option (Bool × Scanner K) :=
  (readLF s).map fun r ↦ (r.1 || peek r.2.text = '\x00', r.2)

/-- `isEOF`. -/
def isEOF (s : Scanner K) : Option (Bool × Scanner K) :=
  (skipSpace s).map fun s ↦ (peek s.text = '\x00', s)

/-- `checkLF`. The number of the line stays as it was counted. -/
def checkLF (s : Scanner K) : Option (Bool × Scanner K) :=
  (readLF s).map fun r ↦ (r.1, if r.1 then r.2.moveTo s.text else r.2)

/-! ### Strings -/

/-- The loop of `extractQuotedString` within a line: the closing quote, if there is one. -/
def closingQuoteInLine (quoteChar : Option Char) : Text → Option Text
  | [] => none
  | c :: text =>
    if c = '\r' || c = '\n' || c = '\x00' then none
    else if some c = quoteChar then some (c :: text)
    else closingQuoteInLine quoteChar text

/-- The loop of `extractQuotedString` over several lines: the closing quote, if there is one, and
the number of the line. There is no result if the loop leaves the buffer. -/
def closingQuote (quoteChar : Option Char) : ℕ → Text → ℤ → Option (Option Text × ℤ)
  | 0, _, _ => none
  | fuel + 1, text, lineNumber =>
    if peek text = '\x00' then some (none, lineNumber)
    else
      -- `readLF0`: the character behind a line feed is not compared with NUL
      let (text, lineNumber) :=
        match lineFeed text with
        | some text => (text, lineNumber + 1)
        | none => (text, lineNumber)
      if some (peek text) = quoteChar then some (some text, lineNumber)
      else
        match advance text with
        | none => none
        | some text => closingQuote quoteChar fuel text lineNumber

/-- `extractQuotedString`. -/
def extractQuotedString (s : Scanner K) : Option (Bool × Scanner K) :=
  match advance s.text with
  | none => none
  | some org =>
    let found :=
      if s.settings.isLineOriented then
        some (closingQuoteInLine s.settings.quoteChar org, s.lineNumber)
      else closingQuote s.settings.quoteChar (org.length + 1) org s.lineNumber
    match found with
    | none => none
    | some (none, lineNumber) => some (false, s.moveToLine org lineNumber)
    | some (some text, lineNumber) =>
      (advance text).map fun rest ↦
        (true, ((s.moveToLine text lineNumber).assign org).moveTo rest)

/-- A word that has been read from `org` on, if it is not empty. -/
def wordFrom (s : Scanner K) (text : Text) : Bool × Scanner K :=
  let moved := s.moveTo text
  if text.length < s.text.length then (true, moved.assign s.text) else (false, moved)

/-- `readWord0`. Characters that are not ASCII belong to words. -/
def readWord0 (s : Scanner K) : Bool × Scanner K :=
  wordFrom s (s.text.dropWhile fun c ↦ !(!isalnum c && isascii c && c ≠ '_'))

/-- `readString0`. -/
def readString0 (delimiterChar : Char) (s : Scanner K) : Bool × Scanner K :=
  wordFrom s (s.text.dropWhile fun c ↦ !(isspace c || iscntrl c || c = delimiterChar))

/-- `readWord`. -/
def readWord (s : Scanner K) : Option (Bool × Scanner K) :=
  (skipSpace s).map readWord0

/-- `readString`, up to a delimiter. -/
def readString (delimiterChar : Char) (s : Scanner K) : Option (Bool × Scanner K) :=
  (skipSpace s).map (readString0 delimiterChar)

/-- The comparison with a string. At the terminating NUL it fails. -/
def matchString : List Char → Text → Option Text
  | [], text => some text
  | _ :: _, [] => none
  | c :: str, d :: text => if c = d then matchString str text else none

/-- `readString` of a C string. -/
def readStringOf (str : List Char) (s : Scanner K) : Option (Bool × Scanner K) :=
  (skipSpace s).map fun s ↦
    match matchString (str.takeWhile (· ≠ '\x00')) s.text with
    | some text => (true, s.moveTo text)
    | none => (false, s)

/-- `readQuotedString`. -/
def readQuotedString (allowNoQuotedWord : Bool) (s : Scanner K) : Option (Bool × Scanner K) :=
  (skipSpace s).bind fun s ↦
    if some (peek s.text) = s.settings.quoteChar then extractQuotedString s
    else if allowNoQuotedWord then some (readString0 ' ' s)
    else some (false, s)

/-- `readUnquotedTextBlock`. -/
def readUnquotedTextBlock (s : Scanner K) : Option (Bool × Scanner K) :=
  (skipSpace s).map fun s ↦ wordFrom s (s.text.dropWhile fun c ↦
    !(c = '\r' || c = '\n' || some c = s.settings.commentChar || c = '\x00'))

/-- `readSymbol`. -/
def readSymbol (s : Scanner K) : Option (Bool × Scanner K) :=
  (readWord s).map fun r ↦
    if r.1 then
      let id := r.2.getSymbolID r.2.stringValue
      (id ≠ 0, r.2.setSymbol id)
    else (false, r.2)

/-- `readSymbol` of an id. -/
def readSymbolOf (id : ℤ) (s : Scanner K) : Option (Bool × Scanner K) :=
  (readWord s).map fun r ↦
    if r.1 then
      let symbolValue := r.2.getSymbolID r.2.stringValue
      if symbolValue = id then (true, r.2.setSymbol symbolValue)
      else (false, (r.2.setSymbol symbolValue).moveToLine s.text s.lineNumber)
    else (false, r.2)

/-! ### Characters, numbers and tokens -/

/-- `readChar`. -/
def readChar (s : Scanner K) : Option (Bool × Scanner K) :=
  (skipSpace s).bind fun s ↦
    if isgraph (peek s.text) then
      (advance s.text).map fun text ↦ (true, (s.setChar (peek s.text)).moveTo text)
    else some (false, s)

/-- `readChar` of a character. -/
def readCharOf (chara : Char) (s : Scanner K) : Option (Bool × Scanner K) :=
  (skipSpace s).bind fun s ↦
    if peek s.text = chara then (advance s.text).map fun text ↦ (true, s.moveTo text)
    else some (false, s)

/-- `peekChar`. -/
def peekChar (s : Scanner K) : Option (Char × Scanner K) :=
  (skipSpace s).map fun s ↦ (peek s.text, s)

/-- `readInt`. -/
def readInt (s : Scanner K) : Option (Bool × Scanner K) :=
  (checkLF s).map fun r ↦
    if r.1 then (false, r.2)
    else
      let (value, tail) := strtol r.2.text
      (tail ≠ r.2.text, (r.2.setInt value).moveTo tail)

/-- `readDouble`. -/
def readDouble [Field K] (s : Scanner K) : Option (Bool × Scanner K) :=
  (checkLF s).map fun r ↦
    if r.1 then (false, r.2)
    else
      let (value, tail) := mystrtod r.2.text
      (tail ≠ r.2.text, (r.2.setDouble value).moveTo tail)

/-- The part of `readToken` for a digit or a sign. -/
def readNumber [Field K] (s : Scanner K) : Option (TokenType × Scanner K) :=
  let (value, tail) := strtol s.text
  let t := s.setInt value
  if tail ≠ s.text then some (.integer, t.moveTo tail)
  else
    let (value, tail) := mystrtod s.text
    let t := t.setDouble value
    if tail ≠ s.text then some (.double, t.moveTo tail)
    else (advance s.text).map fun text ↦ (.siglum, (t.setChar (peek s.text)).moveTo text)

/-- The part of `readToken` for a letter. -/
def readAlphabet (s : Scanner K) : Option (TokenType × Scanner K) :=
  (advance s.text).map fun text ↦
    let t := (s.moveTo (text.dropWhile fun c ↦ isalnum c || c = '_')).assign s.text
    if t.stringValue.length = 1 then (.alphabet, t.setChar (peek s.text)) else (.word, t)

/-- `readToken`. -/
def readToken [Field K] (s : Scanner K) : Option (TokenType × Scanner K) :=
  (skipSpace s).bind fun s ↦
    let c := peek s.text
    if isdigit c || c = '+' || c = '-' then readNumber s
    else if isalpha c then readAlphabet s
    else if some c = s.settings.quoteChar then
      (extractQuotedString s).map fun r ↦ (if r.1 then .string else .siglum, r.2)
    else if ispunct c then
      (advance s.text).map fun text ↦ (.siglum, (s.setChar c).moveTo text)
    else
      let r := readLF0 s
      some (if r.1 then .lf else if c = '\x00' then .eof else .none, r.2)

/-! ### Lines -/

/-- The loop of `skipLine`: whether there was a line feed, where the pointer is then, and whether
the line is to be counted. -/
def skipLineLoop : Text → Bool × Text
  | [] => (false, [])
  | c :: text =>
    match lineFeed (c :: text) with
    | some rest => (true, rest)
    | none => if c = '\x00' then (false, c :: text) else skipLineLoop text

/-- `skipLine`. -/
def skipLine (s : Scanner K) : Bool × Scanner K :=
  let r := skipLineLoop s.text
  (r.1, s.moveToLine r.2 (if r.1 then s.lineNumber + 1 else s.lineNumber))

/-- Where the line ends whose line feed is before the position `pos`. The character before the line
feed is read without a look at the start of the buffer. -/
def lineEnd (textBuf : Text) (pos : ℕ) : Option ℕ :=
  if textBuf[pos - 1]? = some '\n' then
    match pos - 1 with
    | 0 => none
    | i + 1 => some (if textBuf[i]? = some '\r' then i else i + 1)
  else some pos

/-- `readLine`. The inner `none` is a `std::length_error`: the line would end before it starts. -/
def readLine (s : Scanner K) : Option (Option Bool × Scanner K) :=
  let r := skipLine s
  if r.1 then
    let start := s.textBuf.length - s.text.length
    (lineEnd s.textBuf (s.textBuf.length - r.2.text.length)).map fun stop ↦
      if stop < start then (none, r.2)
      else (some true, { r.2 with stringValue := s.text.take (stop - start) })
  else some (some false, r.2)

/-- The loop of `skipBlankLines`. Every turn but the last one takes a line feed, so that the number
of characters bounds the number of turns. -/
def skipBlankLinesLoop : ℕ → Scanner K → Option (Bool × Scanner K)
  | 0, _ => none
  | fuel + 1, s =>
    if peek s.text = '\x00' then some (false, s)
    else (readLF s).bind fun r ↦ if r.1 then skipBlankLinesLoop fuel r.2 else some (true, r.2)

/-- `skipBlankLines`. -/
def skipBlankLines (s : Scanner K) : Option (Bool × Scanner K) :=
  skipBlankLinesLoop (s.text.length + 1) s

end Operations

/-! ### Runs -/

/-- An operation on a scanner. -/
inductive Op where
  | readToken
  | readQuotedString (allowNoQuotedWord : Bool)
  | readString (delimiterChar : Char)
  | readStringOf (str : List Char)
  | readWord
  | readChar
  | readCharOf (chara : Char)
  | peekChar
  | readInt
  | readDouble
  | readLine
  | skipLine
  | skipSpace
  | readSymbol
  | readSymbolOf (id : ℤ)
  | readLF
  | readLFEOF
  | isEOF
  | checkLF
  | readUnquotedTextBlock

section Step

variable {K : Type*} [Field K]

/-- The scanner after an operation. -/
def step (s : Scanner K) : Op → Option (Scanner K)
  | .readToken => (readToken s).map Prod.snd
  | .readQuotedString allowNoQuotedWord => (readQuotedString allowNoQuotedWord s).map Prod.snd
  | .readString delimiterChar => (readString delimiterChar s).map Prod.snd
  | .readStringOf str => (readStringOf str s).map Prod.snd
  | .readWord => (readWord s).map Prod.snd
  | .readChar => (readChar s).map Prod.snd
  | .readCharOf chara => (readCharOf chara s).map Prod.snd
  | .peekChar => (peekChar s).map Prod.snd
  | .readInt => (readInt s).map Prod.snd
  | .readDouble => (readDouble s).map Prod.snd
  | .readLine => (readLine s).map Prod.snd
  | .skipLine => some (skipLine s).2
  | .skipSpace => skipSpace s
  | .readSymbol => (readSymbol s).map Prod.snd
  | .readSymbolOf id => (readSymbolOf id s).map Prod.snd
  | .readLF => (readLF s).map Prod.snd
  | .readLFEOF => (readLFEOF s).map Prod.snd
  | .isEOF => (isEOF s).map Prod.snd
  | .checkLF => (checkLF s).map Prod.snd
  | .readUnquotedTextBlock => (readUnquotedTextBlock s).map Prod.snd

/-- The scanner after a list of operations. -/
def run (s : Scanner K) (ops : List Op) : Option (Scanner K) :=
  ops.foldlM step s

end Step

end OpenHRP.EasyScanner
