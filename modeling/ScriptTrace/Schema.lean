import ScriptTrace.Json.Basic
import ScriptTrace.Number.Lenient

/-!
# Checked records

A record arrives as a JSON object. Every field is read on its own, so that all that is wrong with an
object is told at once. Numbers and truth values are read leniently, strings and objects are not.

* `Flaw`, `Issue` : what is wrong with a value, and where;
* `Checked` : a value, or the issues; two results together have the issues of both;
* `Reading` : how the value of a field is read, with one reading for each kind of value;
* `required`, `defaulted` : a field of an object, under the first of its names that is there.
-/

namespace ScriptTrace

/-- What is wrong with one value. -/
inductive Flaw where
  | missing
  | notText
  | notFields
  | notRecord
  | notInteger
  | hasFraction
  | unreadableInteger
  | hugeInteger
  | notFinite
  | notNumber
  | unreadableNumber
  | notTruth
  | unreadableTruth
  deriving DecidableEq, Repr

namespace Flaw

def word : Flaw → String
  | missing => "missing"
  | notText => "string_type"
  | notFields => "dict_type"
  | notRecord => "model_type"
  | notInteger => "int_type"
  | hasFraction => "int_from_float"
  | unreadableInteger => "int_parsing"
  | hugeInteger => "int_parsing_size"
  | notFinite => "finite_number"
  | notNumber => "float_type"
  | unreadableNumber => "float_parsing"
  | notTruth => "bool_type"
  | unreadableTruth => "bool_parsing"

end Flaw

/-- What is wrong in an object: the field, or nothing for the object itself. -/
structure Issue where
  location : String
  flaw : Flaw
  deriving DecidableEq, Repr

namespace Issue

def text (i : Issue) : String := i.location ++ ":" ++ i.flaw.word

/-- Inserts a text before the first greater one. -/
def insertText (s : String) : List String → List String
  | [] => [s]
  | t :: rest => if t ≤ s then t :: insertText s rest else s :: t :: rest

/-- All issues in the order of their texts. -/
def summary (issues : List Issue) : String :=
  " ".intercalate ((issues.map text).foldr insertText [])

end Issue

/-- A value, or all that is wrong with what it was read from. -/
inductive Checked (α : Type) where
  | valid (value : α)
  | invalid (issues : List Issue)
  deriving Inhabited

namespace Checked

variable {α β : Type}

def map (f : α → β) : Checked α → Checked β
  | valid a => valid (f a)
  | invalid issues => invalid issues

/-- Applies a checked function to a checked value; the issues of both are kept. -/
def apply : Checked (α → β) → Checked α → Checked β
  | valid f, valid a => valid (f a)
  | valid _, invalid issues => invalid issues
  | invalid issues, valid _ => invalid issues
  | invalid issues, invalid others => invalid (issues ++ others)

instance : Applicative Checked where
  pure := valid
  map := map
  seq f a := apply f (a ())

def toExcept : Checked α → Except (List Issue) α
  | valid a => .ok a
  | invalid issues => .error issues

/-- Reads each value; the first that is invalid decides. -/
def readAll (read : Json → Checked α) (values : List Json) : Except (List Issue) (List α) :=
  values.mapM fun v => (read v).toExcept

end Checked

/-! ## Values -/

/-- What a value is read as, or what is wrong with it. -/
abbrev Reading (α : Type) := Json → Except Flaw α

namespace Reading

def text : Reading String
  | .str s => .ok s
  | _ => .error .notText

def optionalText : Reading (Option String)
  | .null => .ok none
  | .str s => .ok (some s)
  | _ => .error .notText

def fields : Reading (Fields Json)
  | .obj fields => .ok fields
  | _ => .error .notFields

def any : Reading Json := .ok

/-- The range of the integers that a number with a point may stand for. -/
def wideRange : Nat := Nat.pow 2 63

/-- The integer that a number with a point stands for. -/
def wholeNumber (x : Binary64) : Except Flaw Int :=
  match x.truncate?, x.toInt? with
  | none, _ => .error .notFinite
  | some _, none => .error .hasFraction
  | some _, some n => if n.natAbs < wideRange then .ok n else .error .hugeInteger

/-- What is wrong with the text of an integer. -/
def ofIntegerFault : IntegerFault → Flaw
  | .unreadable => .unreadableInteger
  | .tooLong => .hugeInteger

/-- Integers, truth values, numbers without fraction, and texts of integers. -/
def integer : Reading Int
  | .int n => .ok n
  | .bool b => .ok (if b then 1 else 0)
  | .float x => wholeNumber x
  | .str s => (lenientInteger s).mapError ofIntegerFault
  | _ => .error .notInteger

/-- Numbers, truth values, and texts of numbers. -/
def number : Reading Binary64
  | .float x => .ok x
  | .int n =>
    match Binary64.ofInt n with
    | .infinite _ => .error .notNumber
    | x => .ok x
  | .bool b => .ok (.ofInt (if b then 1 else 0))
  | .str s => (lenientDecimal s).elim (.error .unreadableNumber) .ok
  | _ => .error .notNumber

/-- The words for truth and for falsity. -/
def truthWords : List String := ["1", "on", "t", "true", "y", "yes"]
def falsityWords : List String := ["0", "off", "f", "false", "n", "no"]

/-- One is true and zero false; an integer out of range is no truth value of any kind. -/
def truthOfInteger (n : Int) : Except Flaw Bool :=
  if n = 0 then .ok false
  else if n = 1 then .ok true
  else if -wideRange ≤ n ∧ n < wideRange then .error .unreadableTruth
  else .error .notTruth

/-- Truth values, one and zero, and words for them in any case. -/
def truth : Reading Bool
  | .bool b => .ok b
  | .int n => truthOfInteger n
  | .float x =>
    match wholeNumber x with
    | .ok n => truthOfInteger n
    | .error _ => .error .notTruth
  | .str s =>
    let word := String.ofList (s.toList.map Char.toLower)
    if truthWords.contains word then .ok true
    else if falsityWords.contains word then .ok false
    else .error .unreadableTruth
  | _ => .error .notTruth

end Reading

/-! ## Fields -/

/-- A reading with its place. -/
def located {α : Type} (location : String) : Except Flaw α → Checked α
  | .ok a => .valid a
  | .error flaw => .invalid [⟨location, flaw⟩]

/-- A field that must be there. -/
def required {α : Type} (name : String) (reading : Reading α) (fields : Fields Json) : Checked α :=
  located name ((Fields.get? name fields).elim (.error .missing) reading)

/-- A field that may be missing, under the first of two names that is there. -/
def defaultedAs {α : Type} (name other : String) (default : α) (reading : Reading α) (fields : Fields Json) :
    Checked α :=
  match Fields.get? name fields, Fields.get? other fields with
  | some j, _ => located name (reading j)
  | none, some j => located other (reading j)
  | none, none => .valid default

/-- A field that may be missing. -/
def defaulted {α : Type} (name : String) (default : α) (reading : Reading α) (fields : Fields Json) : Checked α :=
  defaultedAs name name default reading fields

end ScriptTrace
