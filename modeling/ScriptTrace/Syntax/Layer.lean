import ScriptTrace.Syntax.Fault

/-!
# Reading a node one layer at a time

A `Layer α` is the outermost layer of a JSON value whose children are of type `α`. Values that carry
more than the bare JSON, such as marks or printed forms, are read by the same functions.

* `Layer.require` : a field that must be there;
* `Layer.optional` : a field that may be missing or null;
* `Layer.elements` : the values a loop runs over: items, names of fields, or characters.
-/

namespace ScriptTrace

/-- The outermost layer of a value. -/
inductive Layer (α : Type) where
  | null
  | bool (b : Bool)
  | int (n : Int)
  | float (x : Binary64)
  | str (s : String)
  | arr (items : List α)
  | obj (fields : List (String × α))

/-- Types whose values have a layer, and which hold plain strings. -/
class Layered (α : Type) where
  layer : α → Layer α
  ofString : String → α

export Layered (layer)

namespace Layer

variable {α : Type}

/-- Null, false, zero and everything empty count as false. -/
def truthy : Layer α → Bool
  | null => false
  | bool b => b
  | int n => n != 0
  | float x => !x.isZero
  | str s => s != ""
  | arr items => !items.isEmpty
  | obj fields => !fields.isEmpty

def isNull : Layer α → Bool
  | null => true
  | _ => false

/-- Whether the value is this string. -/
def isString (s : String) : Layer α → Bool
  | str t => t == s
  | _ => false

/-- The field under `key`. -/
def require (key : String) : Layer α → Except Fault α
  | obj fields =>
    match Fields.get? key fields with
    | some x => .ok x
    | none => .error (.missing (.str key))
  | _ => .error .wrongKind

variable [Layered α]

/-- The field under `key`, none when it is missing or null. -/
def optional (key : String) : Layer α → Except Fault (Option α)
  | obj fields => .ok ((Fields.get? key fields).filter fun x => !(layer x).isNull)
  | _ => .error .unsupported

/-- Whether the field under `key` counts as true. -/
def flag (key : String) (l : Layer α) : Except Fault Bool := do
  return ((← l.optional key).map fun x => (layer x).truthy).getD false

/-- The values a loop over the value runs over. -/
def elements : Layer α → Except Fault (List α)
  | arr items => .ok items
  | obj fields => .ok (fields.map fun f => Layered.ofString f.1)
  | str s => .ok (s.toList.map fun c => Layered.ofString (String.singleton c))
  | _ => .error .wrongKind

/-- The elements of the field under `key`; a field that counts as false has none. -/
def elementsOf (key : String) (l : Layer α) : Except Fault (List α) := do
  match ← l.optional key with
  | some x => if (layer x).truthy then (layer x).elements else .ok []
  | none => .ok []

/-- Whether the type of a node is `type`. -/
def hasType (type : String) (l : Layer α) : Except Fault Bool := do
  return (layer (← l.require "type")).isString type

/-- Whether the type of a node is one of `types`. -/
def hasTypeIn (types : List String) (l : Layer α) : Except Fault Bool := do
  let type ← l.require "type"
  return types.any fun t => (layer type).isString t

/-- A node is an object with a type. -/
def isNode : Layer α → Bool
  | obj fields => (Fields.get? "type" fields).isSome
  | _ => false

end Layer

namespace Json

def layerOf : Json → Layer Json
  | null => .null
  | bool b => .bool b
  | int n => .int n
  | float x => .float x
  | str s => .str s
  | arr items => .arr items
  | obj fields => .obj fields

instance : Layered Json := ⟨layerOf, .str⟩

def isNode (j : Json) : Bool := (layer j).isNode

end Json

end ScriptTrace
