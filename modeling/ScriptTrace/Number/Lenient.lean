import ScriptTrace.Number.Reading

/-!
# Lenient reading of numbers

Records carry numbers as texts in many spellings. A text is first read as it stands; what cannot be read
so is cleaned up and read once more.

* `plainInteger` : decimal digits without a leading zero, after an optional minus sign;
* `cleaned` : a text without the spellings that do not matter: space, a plus sign, zeros in front, a
  fraction of zeros, underscores between digits;
* `lenientInteger`, `lenientDecimal` : the numbers that texts stand for.
-/

namespace ScriptTrace

/-! ## Underscores -/

/-- Whether two underscores follow each other. -/
def hasDoubleUnderscore : List Char → Bool
  | '_' :: '_' :: _ => true
  | _ :: cs => hasDoubleUnderscore cs
  | [] => false

/-- Underscores may only stand alone, and not at an end. -/
def isGrouped (cs : List Char) : Bool :=
  cs.head? != some '_' && cs.getLast? != some '_' && !hasDoubleUnderscore cs

def withoutUnderscores (cs : List Char) : List Char := cs.filter (· != '_')

/-- A text without its underscores; it stays as it is where they do not just group. -/
def ungrouped (cs : List Char) : List Char := if isGrouped cs then withoutUnderscores cs else cs

/-! ## Integers -/

/-- Why a text is no integer. -/
inductive IntegerFault where
  | unreadable
  /-- More characters than an integer may have. -/
  | tooLong
  deriving DecidableEq, Repr

/-- A sign and digits of an integer: too many of them are found out before anything after them. -/
def digitsToInteger (negative : Bool) (cs : List Char) : Except IntegerFault Int :=
  let digits := cs.takeWhile fun c => (asciiDigit? c).isSome
  let size := if negative then digits.length + 1 else digits.length
  if maxDigits < size then .error .tooLong
  else if digits.length = cs.length then .ok (signed negative (ofDigits (digits.filterMap asciiDigit?)))
  else .error .unreadable

/-- An integer that starts with its first digit, which is zero only in `0` itself. -/
def plainMagnitude (negative : Bool) (cs : List Char) : Except IntegerFault Int :=
  match cs with
  | ['0'] => .ok 0
  | c :: _ => if '1' ≤ c ∧ c ≤ '9' then digitsToInteger negative cs else .error .unreadable
  | [] => .error .unreadable

def plainInteger : List Char → Except IntegerFault Int
  | '-' :: cs => plainMagnitude true cs
  | cs => plainMagnitude false cs

/-- A character with which an integer may start after zeros. -/
def startsInteger (c : Char) : Bool := ('1' ≤ c && c ≤ '9') || c == '-'

/-- What remains after zeros and underscores, of which `last` was the last: the text from the first other
digit or a minus sign on. The last of them stays before a point, or where nothing follows. -/
def afterZeros (last : Char) : List Char → Option (List Char)
  | [] => some [last]
  | c :: cs =>
    if c = '0' ∨ c = '_' then afterZeros c cs
    else if c = '.' then some (last :: c :: cs)
    else if startsInteger c then some (c :: cs)
    else none

/-- A text without zeros in front or after a minus sign in front; none if it does not start like an
integer. -/
def withoutLeadingZeros : List Char → Option (List Char)
  | [] => none
  | c :: cs =>
    if c = '-' then (withoutLeadingZeros cs).map ('-' :: ·)
    else if c = '0' then afterZeros c cs
    else if '1' ≤ c ∧ c ≤ '9' then some (c :: cs)
    else none

/-- A text without a fraction that consists of one zero or more. -/
def withoutZeroFraction (cs : List Char) : List Char :=
  let backwards := cs.reverse
  match backwards.head?, backwards.dropWhile (· == '0') with
  | some '0', '.' :: whole => whole.reverse
  | _, _ => cs

/-- A text without one plus sign in front; none if a minus sign follows. -/
def withoutPlus : List Char → Option (List Char)
  | '+' :: '-' :: _ => none
  | '+' :: cs => some cs
  | cs => some cs

/-- A text without the spellings that do not matter. -/
def cleaned (cs : List Char) : Option (List Char) := do
  let cs ← withoutPlus (trimChars isWhiteSpace cs)
  let cs ← withoutLeadingZeros cs
  return ungrouped (withoutZeroFraction cs)

/-- The integer that a text stands for. -/
def lenientInteger (s : String) : Except IntegerFault Int :=
  match plainInteger s.toList with
  | .error .unreadable =>
    match cleaned s.toList with
    | some cs => plainInteger cs
    | none => .error .unreadable
  | answer => answer

/-! ## Numbers with a fraction -/

/-- The number that a text stands for. With underscores there may be no space around it. -/
def lenientDecimal (s : String) : Option Binary64 :=
  let cs := s.toList
  if cs.contains '_' then
    if isGrouped cs then readNumber asciiDigit? (withoutUnderscores cs) else none
  else readNumber asciiDigit? (trimChars isWhiteSpace cs)

end ScriptTrace
