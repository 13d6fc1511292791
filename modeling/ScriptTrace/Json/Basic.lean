import ScriptTrace.Fields
import ScriptTrace.Number.Binary64

/-!
# JSON values

Objects keep their fields in the order written; integers have no bound and differ from numbers with a
fraction or an exponent.

* `Json.truthy` : which values count as true where a condition is asked for;
* `Json.field` : the value of an object's field, null when there is none.
-/

namespace ScriptTrace

inductive Json where
  | null
  | bool (b : Bool)
  | int (n : Int)
  | float (x : Binary64)
  | str (s : String)
  | arr (items : List Json)
  | obj (fields : List (String × Json))
  deriving Inhabited, Repr, BEq

namespace Json

/-- Null, false, zero and everything empty count as false. -/
def truthy : Json → Bool
  | null => false
  | bool b => b
  | int n => n != 0
  | float x => !x.isZero
  | str s => s != ""
  | arr items => !items.isEmpty
  | obj fields => !fields.isEmpty

def isNull : Json → Bool
  | null => true
  | _ => false

/-- A field of an object; none for other values. -/
def get? (name : String) : Json → Option Json
  | obj fields => Fields.get? name fields
  | _ => none

/-- A field of an object, null when it is missing. -/
def field (name : String) (j : Json) : Json := (j.get? name).getD null

/-- The text of a string value. -/
def string? : Json → Option String
  | str s => some s
  | _ => none

/-- Levels of nesting: one for a scalar. -/
def depth : Json → Nat
  | arr items => depthItems items + 1
  | obj fields => depthFields fields + 1
  | _ => 1
where
  depthItems : List Json → Nat
    | [] => 0
    | x :: xs => max (depth x) (depthItems xs)
  depthFields : List (String × Json) → Nat
    | [] => 0
    | (_, x) :: xs => max (depth x) (depthFields xs)

end Json

end ScriptTrace
