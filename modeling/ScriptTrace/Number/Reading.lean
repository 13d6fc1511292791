import ScriptTrace.Number.Binary64
import ScriptTrace.Text.Blank
import ScriptTrace.Text.Digit

/-!
# Reading numbers from text

Digits may be grouped by single underscores, white space at both ends is dropped, a sign may stand in
front. Which characters count as digits is a parameter.

* `readInteger` : digits of any script;
* `readDecimal` : a number with optional fraction and exponent, or the words for infinity and for no
  number.
-/

namespace ScriptTrace

/-- Digits to one number, the first the highest. -/
def ofDigits (ds : List Nat) : Nat := ds.foldl (fun n d => 10 * n + d) 0

/-- A leading run of digits with single underscores between them, and the rest; `inside` tells that a
digit came just before. -/
def digitRunFrom (digit? : Char → Option Nat) (inside : Bool) : List Char → List Nat × List Char
  | [] => ([], [])
  | c :: cs =>
    match digit? c with
    | some d =>
      let (ds, rest) := digitRunFrom digit? true cs
      (d :: ds, rest)
    | none =>
      if inside && c == '_' then
        match digitRunFrom digit? false cs with
        | ([], _) => ([], c :: cs)
        | run => run
      else ([], c :: cs)

def digitRun (digit? : Char → Option Nat) : List Char → List Nat × List Char := digitRunFrom digit? false

/-- A sign in front, if any: whether it is a minus, and the rest. -/
def readSign : List Char → Bool × List Char
  | '-' :: cs => (true, cs)
  | '+' :: cs => (false, cs)
  | cs => (false, cs)

def signed (negative : Bool) (n : Nat) : Int := if negative then -n else n

/-- The most digits an integer may be written with. -/
def maxDigits : Nat := 4300

/-- An integer in digits of any script. -/
def readInteger (s : String) : Option Int :=
  let (negative, cs) := readSign (trimChars isWhiteSpace s.toList)
  match digitRun decimalDigit? cs with
  | (ds@(_ :: _), []) => if ds.length ≤ maxDigits then some (signed negative (ofDigits ds)) else none
  | _ => none

/-- The power of ten after the digits; nothing there is a power of zero. -/
def readExponent (digit? : Char → Option Nat) : List Char → Option Int
  | [] => some 0
  | c :: cs =>
    if c = 'e' ∨ c = 'E' then
      let (negative, cs) := readSign cs
      match digitRun digit? cs with
      | (ds@(_ :: _), []) => some (signed negative (ofDigits ds))
      | _ => none
    else none

/-- A number without its sign. -/
def readMagnitude (digit? : Char → Option Nat) (negative : Bool) (cs : List Char) : Option Binary64 :=
  match String.ofList (cs.map Char.toLower) with
  | "inf" | "infinity" => some (.infinite negative)
  | "nan" => some .nan
  | _ =>
    let (whole, rest) := digitRun digit? cs
    let (fraction, rest) :=
      match rest with
      | '.' :: rest => digitRun digit? rest
      | rest => ([], rest)
    if whole.isEmpty && fraction.isEmpty then none else
    (readExponent digit? rest).map fun power =>
      Binary64.ofDecimal negative (ofDigits (whole ++ fraction)) (power - fraction.length)

/-- A number with its sign. -/
def readNumber (digit? : Char → Option Nat) (cs : List Char) : Option Binary64 :=
  let (negative, cs) := readSign cs
  readMagnitude digit? negative cs

/-- A number with optional fraction and exponent. -/
def readDecimal (digit? : Char → Option Nat) (s : String) : Option Binary64 :=
  readNumber digit? (trimChars isWhiteSpace s.toList)

end ScriptTrace
