import ScriptTrace.Json.Basic
import ScriptTrace.Number.Reading

/-!
# Reading JSON text

The grammar of JSON, with the words `NaN`, `Infinity` and `-Infinity` as numbers. A number with a
fraction or an exponent is rounded to binary64, any other is an integer. Of fields with one name the
last gives the value and the first the place.

Each reader answers the value and the text after it, or a flaw and the text from its place on.

* `Json.Flaw`, `Json.Place`, `Json.Misreading` : what is wrong with a text, and where;
* `Json.parse` : the value of a whole text.
-/

namespace ScriptTrace

namespace Json

/-! ## Flaws -/

/-- What is wrong with a text that is no JSON. -/
inductive Flaw where
  | noValue
  | noName
  | noColon
  | noComma
  /-- Something follows the value. -/
  | trailing
  | byteOrderMark
  /-- A string without a closing quote; its place is that of the opening quote. -/
  | openString
  | controlCharacter
  | badEscape
  | badHexEscape
  /-- An integer with so many digits. -/
  | tooManyDigits (count : Nat)
  deriving DecidableEq, Repr

namespace Flaw

def text : Flaw → String
  | noValue => "Expecting value"
  | noName => "Expecting property name enclosed in double quotes"
  | noColon => "Expecting ':' delimiter"
  | noComma => "Expecting ',' delimiter"
  | trailing => "Extra data"
  | byteOrderMark => "Unexpected UTF-8 BOM (decode using utf-8-sig)"
  | openString => "Unterminated string starting at"
  | controlCharacter => "Invalid control character at"
  | badEscape => "Invalid \\escape"
  | badHexEscape => "Invalid \\uXXXX escape"
  | tooManyDigits count =>
    "Exceeds the limit (" ++ toString maxDigits ++ " digits) for integer string conversion: value has "
      ++ toString count ++ " digits; use sys.set_int_max_str_digits() to increase the limit"

/-- Whether a flaw breaks the grammar. -/
def isGrammatical : Flaw → Bool
  | tooManyDigits _ => false
  | _ => true

end Flaw

/-- A place in a text. Lines and columns count from one, the offset from zero. -/
structure Place where
  line : Nat
  column : Nat
  offset : Nat
  deriving DecidableEq, Repr

/-- The place that follows some text. -/
def Place.after (passed : List Char) : Place where
  line := passed.count '\n' + 1
  column := (passed.reverse.takeWhile (· != '\n')).length + 1
  offset := passed.length

/-- Why a text cannot be read. -/
structure Misreading where
  flaw : Flaw
  place : Place
  deriving DecidableEq, Repr

/-- The description of a flaw in a text, with its place if the grammar is broken there. -/
def Misreading.text (m : Misreading) : String :=
  if m.flaw.isGrammatical then
    m.flaw.text ++ ": line " ++ toString m.place.line ++ " column " ++ toString m.place.column
      ++ " (char " ++ toString m.place.offset ++ ")"
  else m.flaw.text

/-- An answer, or a flaw and the text from its place on. -/
abbrev Attempt := Except (Flaw × List Char)

/-! ## Space -/

def isSpace (c : Char) : Bool := c == ' ' || c == '\t' || c == '\n' || c == '\r'

def skipSpace (cs : List Char) : List Char := cs.dropWhile isSpace

/-! ## Strings -/

def hexDigit? (c : Char) : Option Nat :=
  if '0' ≤ c ∧ c ≤ '9' then some (c.toNat - '0'.toNat)
  else if 'a' ≤ c ∧ c ≤ 'f' then some (c.toNat - 'a'.toNat + 10)
  else if 'A' ≤ c ∧ c ≤ 'F' then some (c.toNat - 'A'.toNat + 10)
  else none

/-- The unit that four hexadecimal digits stand for. -/
def hexUnit? (a b c d : Char) : Option Nat := do
  return (((← hexDigit? a) * 16 + (← hexDigit? b)) * 16 + (← hexDigit? c)) * 16 + (← hexDigit? d)

/-- A UTF-16 unit of the first or of the second half of a surrogate pair. -/
def isHighUnit (n : Nat) : Bool := 0xD800 ≤ n && n < 0xDC00

def isLowUnit (n : Nat) : Bool := 0xDC00 ≤ n && n < 0xE000

/-- The character that a surrogate pair stands for. -/
def ofPair (high low : Nat) : Char := Char.ofNat (0x10000 + (high - 0xD800) * 0x400 + (low - 0xDC00))

/-- The character of a single unit; half a pair has none and becomes the replacement character. So texts that differ only in
their half pairs are not told apart here, and neither are keys: the later one of two such keys counts. -/
def ofUnit (n : Nat) : Char := if isHighUnit n || isLowUnit n then '\ufffd' else Char.ofNat n

def unescapeLetter? (c : Char) : Option Char :=
  if c = '"' then some '"'
  else if c = '\\' then some '\\'
  else if c = '/' then some '/'
  else if c = 'n' then some '\n'
  else if c = 'r' then some '\r'
  else if c = 't' then some '\t'
  else if c = 'b' then some '\x08'
  else if c = 'f' then some '\x0c'
  else none

/-- The characters up to the closing quote; `quoted` is the text from the opening quote on, and `high` the
first half of a pair that was just read. At least one character follows the digits of an escape. -/
def readChars (quoted : List Char) : Option Nat → List Char → Attempt (List Char × List Char)
  | high, '\\' :: 'u' :: a :: b :: c :: d :: next :: rest =>
    match hexUnit? a b c d with
    | none => .error (.badHexEscape, 'u' :: a :: b :: c :: d :: next :: rest)
    | some n =>
      match high with
      | some h =>
        if isLowUnit n then do
          let (cs, rest) ← readChars quoted none (next :: rest)
          return (ofPair h n :: cs, rest)
        else if isHighUnit n then do
          let (cs, rest) ← readChars quoted (some n) (next :: rest)
          return (ofUnit h :: cs, rest)
        else do
          let (cs, rest) ← readChars quoted none (next :: rest)
          return (ofUnit h :: ofUnit n :: cs, rest)
      | none =>
        if isHighUnit n then readChars quoted (some n) (next :: rest)
        else do
          let (cs, rest) ← readChars quoted none (next :: rest)
          return (ofUnit n :: cs, rest)
  | _, '\\' :: 'u' :: rest => .error (.badHexEscape, 'u' :: rest)
  | high, '\\' :: c :: rest =>
    match unescapeLetter? c with
    | none => .error (.badEscape, '\\' :: c :: rest)
    | some x => do
      let (cs, rest) ← readChars quoted none rest
      return ((high.map ofUnit).toList ++ x :: cs, rest)
  | _, ['\\'] => .error (.openString, quoted)
  | high, '"' :: rest => .ok ((high.map ofUnit).toList, rest)
  | high, c :: rest =>
    if c.toNat < 0x20 then .error (.controlCharacter, c :: rest)
    else do
      let (cs, rest) ← readChars quoted none rest
      return ((high.map ofUnit).toList ++ c :: cs, rest)
  | _, [] => .error (.openString, quoted)

/-- A string whose opening quote has been read. -/
def readString (cs : List Char) : Attempt (String × List Char) := do
  let (cs, rest) ← readChars ('"' :: cs) none cs
  return (String.ofList cs, rest)

/-! ## Numbers -/

/-- The digits in front, and the rest. -/
def takeDigits (cs : List Char) : List Nat × List Char :=
  (cs.takeWhile Char.isDigit |>.map (fun c => c.toNat - '0'.toNat), cs.dropWhile Char.isDigit)

/-- A point and the digits after it; no digits when there are none. -/
def readFraction : List Char → List Nat × List Char
  | '.' :: cs =>
    match takeDigits cs with
    | ([], _) => ([], '.' :: cs)
    | run => run
  | cs => ([], cs)

/-- An exponent, if there is one. -/
def readPower : List Char → Option Int × List Char
  | [] => (none, [])
  | c :: cs =>
    if c = 'e' ∨ c = 'E' then
      let (negative, digits) := readSign cs
      match takeDigits digits with
      | ([], _) => (none, c :: cs)
      | (ds, rest) => (some (signed negative (ofDigits ds)), rest)
    else (none, c :: cs)

/-- An integer; it may not have too many digits. -/
def wholeNumber (negative : Bool) (digits : List Nat) (rest : List Char) : Attempt (Json × List Char) :=
  if maxDigits < digits.length then .error (.tooManyDigits digits.length, rest)
  else .ok (int (signed negative (ofDigits digits)), rest)

/-- A number; `cs` is `start` without the sign. A leading zero stands alone. -/
def readNumber (start : List Char) (negative : Bool) (cs : List Char) : Attempt (Json × List Char) :=
  let (whole, rest) :=
    match cs with
    | '0' :: rest => ([0], rest)
    | cs => takeDigits cs
  if whole.isEmpty then .error (.noValue, start) else
  let (fraction, rest) := readFraction rest
  let (power, rest) := readPower rest
  if fraction.isEmpty && power.isNone then wholeNumber negative whole rest
  else
    let exponent := power.getD 0 - fraction.length
    .ok (float (Binary64.ofDecimal negative (ofDigits (whole ++ fraction)) exponent), rest)

/-! ## Values -/

/-- A word with a meaning of its own. -/
def readWord (cs : List Char) : Option (Json × List Char) :=
  match cs with
  | 'n' :: 'u' :: 'l' :: 'l' :: rest => some (null, rest)
  | 't' :: 'r' :: 'u' :: 'e' :: rest => some (bool true, rest)
  | 'f' :: 'a' :: 'l' :: 's' :: 'e' :: rest => some (bool false, rest)
  | 'N' :: 'a' :: 'N' :: rest => some (float .nan, rest)
  | 'I' :: 'n' :: 'f' :: 'i' :: 'n' :: 'i' :: 't' :: 'y' :: rest => some (float (.infinite false), rest)
  | '-' :: 'I' :: 'n' :: 'f' :: 'i' :: 'n' :: 'i' :: 't' :: 'y' :: rest => some (float (.infinite true), rest)
  | _ => none

/-- A value that is no array and no object. -/
def readScalar (cs : List Char) : Attempt (Json × List Char) :=
  match readWord cs with
  | some answer => .ok answer
  | none =>
    match cs with
    | '"' :: rest => (readString rest).map fun (s, rest) => (str s, rest)
    | '-' :: rest => readNumber cs true rest
    | cs => readNumber cs false cs

mutual

/-- A value at the start of the text. Every call takes one unit of fuel. -/
def readValue : Nat → List Char → Attempt (Json × List Char)
  | 0, cs => .error (.noValue, cs)
  | fuel + 1, cs =>
    match cs with
    | '[' :: rest =>
      match skipSpace rest with
      | ']' :: rest => .ok (arr [], rest)
      | rest => (readItems fuel rest).map fun (items, rest) => (arr items, rest)
    | '\x7b' :: rest =>
      match skipSpace rest with
      | '\x7d' :: rest => .ok (obj [], rest)
      | rest => (readFields fuel rest).map fun (fields, rest) => (obj (Fields.setAll [] fields), rest)
    | cs => readScalar cs

/-- One or more items and the closing bracket. -/
def readItems : Nat → List Char → Attempt (List Json × List Char)
  | 0, cs => .error (.noValue, cs)
  | fuel + 1, cs => do
    let (x, rest) ← readValue fuel cs
    match skipSpace rest with
    | ']' :: rest => return ([x], rest)
    | ',' :: rest =>
      let (xs, rest) ← readItems fuel (skipSpace rest)
      return (x :: xs, rest)
    | rest => throw (.noComma, rest)

/-- One or more fields and the closing brace. -/
def readFields : Nat → List Char → Attempt (Fields Json × List Char)
  | 0, cs => .error (.noName, cs)
  | fuel + 1, cs =>
    match cs with
    | '"' :: rest => do
      let (name, rest) ← readString rest
      match skipSpace rest with
      | ':' :: rest =>
        let (x, rest) ← readValue fuel (skipSpace rest)
        match skipSpace rest with
        | '\x7d' :: rest => return ([(name, x)], rest)
        | ',' :: rest =>
          let (xs, rest) ← readFields fuel (skipSpace rest)
          return ((name, x) :: xs, rest)
        | rest => throw (.noComma, rest)
      | rest => throw (.noColon, rest)
    | cs => .error (.noName, cs)

end

/-- The value of a text of characters; each unit of nesting or sequence takes a character, so the fuel
lasts. -/
def readText (cs : List Char) : Attempt Json := do
  if cs.head? = some '\ufeff' then throw (.byteOrderMark, cs)
  let cs := skipSpace cs
  let (x, rest) ← readValue (2 * cs.length + 1) cs
  match skipSpace rest with
  | [] => return x
  | rest => throw (.trailing, rest)

/-- The value of a whole text. -/
def parse (text : String) : Except Misreading Json :=
  let cs := text.toList
  (readText cs).mapError fun (flaw, rest) => ⟨flaw, .after (cs.take (cs.length - rest.length))⟩

end Json

end ScriptTrace
