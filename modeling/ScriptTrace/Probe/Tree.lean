import ScriptTrace.Syntax.Build
import ScriptTrace.Syntax.Layer

/-!
# Trees that are changed in place

A tree that a pass works on differs from plain JSON in two ways: every object carries a mark that tells
whether it has been dealt with, and a place may hold a part that other places hold too.

* `Tree.ofJson`, `Tree.ofProbe` : a tree without marks, and one that is marked throughout;
* `Tree.expand` : the plain JSON a tree stands for, once the shared parts are known;
* `Tree.clear` : the tree without marks;
* `Tree.expand_ofJson` : a tree made from JSON stands for it.
-/

namespace ScriptTrace

inductive Tree where
  | null
  | bool (b : Bool)
  | int (n : Int)
  | float (x : Binary64)
  | str (s : String)
  | arr (items : List Tree)
  | obj (seen : Bool) (fields : List (String × Tree))
  /-- A place that holds the shared part with this number. -/
  | shared (k : Nat)
  deriving Inhabited

namespace Tree

/-- The layer of a tree; a shared part is looked up before its layer is asked for. -/
def layerOf : Tree → Layer Tree
  | null | shared _ => .null
  | bool b => .bool b
  | int n => .int n
  | float x => .float x
  | str s => .str s
  | arr items => .arr items
  | obj _ fields => .obj fields

instance : Layered Tree := ⟨layerOf, str⟩

def isNode (t : Tree) : Bool := (layer t).isNode

/-- Whether a node has been dealt with. -/
def seen : Tree → Bool
  | obj seen _ => seen
  | _ => false

def mark : Tree → Tree
  | obj _ fields => obj true fields
  | t => t

/-- Puts a value under a key of an object. -/
def setField (t : Tree) (key : String) (value : Tree) : Tree :=
  match t with
  | obj seen fields => obj seen (Fields.set key value fields)
  | t => t

def fieldNames : Tree → List String
  | obj _ fields => Fields.names fields
  | _ => []

/-- The field under `key`; null when it is missing. -/
def field (key : String) : Tree → Tree
  | obj _ fields => (Fields.get? key fields).getD null
  | _ => null

mutual

/-- The tree of a JSON value, all objects with the given mark. -/
def ofJsonWith (seen : Bool) : Json → Tree
  | .null => null
  | .bool b => bool b
  | .int n => int n
  | .float x => float x
  | .str s => str s
  | .arr items => arr (ofItems seen items)
  | .obj fields => obj seen (ofFields seen fields)

def ofItems (seen : Bool) : List Json → List Tree
  | [] => []
  | x :: xs => ofJsonWith seen x :: ofItems seen xs

def ofFields (seen : Bool) : List (String × Json) → List (String × Tree)
  | [] => []
  | (k, x) :: xs => (k, ofJsonWith seen x) :: ofFields seen xs

end

/-- A tree nothing of which has been dealt with. -/
def ofJson (j : Json) : Tree := ofJsonWith false j

/-- A probe: a tree that needs no probes. -/
def ofProbe (j : Json) : Tree := ofJsonWith true j

mutual

/-- The plain JSON of a tree, given that of the shared parts. -/
def toJson (parts : Nat → Json) : Tree → Json
  | null => .null
  | bool b => .bool b
  | int n => .int n
  | float x => .float x
  | str s => .str s
  | arr items => .arr (toItems parts items)
  | obj _ fields => .obj (toFields parts fields)
  | shared k => parts k

def toItems (parts : Nat → Json) : List Tree → List Json
  | [] => []
  | x :: xs => toJson parts x :: toItems parts xs

def toFields (parts : Nat → Json) : List (String × Tree) → List (String × Json)
  | [] => []
  | (k, x) :: xs => (k, toJson parts x) :: toFields parts xs

end

/-- The plain JSON of a shared part that holds others to the given depth at most. -/
def partJson (parts : List Tree) : Nat → Nat → Json
  | 0, _ => .null
  | depth + 1, k => toJson (partJson parts depth) (parts.getD k null)

/-- The plain JSON of a tree. No part holds itself, so no chain of parts is longer than their number. -/
def expand (parts : List Tree) (t : Tree) : Json := toJson (partJson parts parts.length) t

mutual

/-- The tree without marks. -/
def clear : Tree → Tree
  | arr items => arr (clearItems items)
  | obj _ fields => obj false (clearFields fields)
  | t => t

def clearItems : List Tree → List Tree
  | [] => []
  | x :: xs => clear x :: clearItems xs

def clearFields : List (String × Tree) → List (String × Tree)
  | [] => []
  | (k, x) :: xs => (k, clear x) :: clearFields xs

end

mutual

theorem toJson_ofJsonWith (parts : Nat → Json) (seen : Bool) :
    ∀ j : Json, toJson parts (ofJsonWith seen j) = j
  | .null | .bool _ | .int _ | .float _ | .str _ => rfl
  | .arr items => by simp [ofJsonWith, toJson, toItems_ofItems parts seen items]
  | .obj fields => by simp [ofJsonWith, toJson, toFields_ofFields parts seen fields]

theorem toItems_ofItems (parts : Nat → Json) (seen : Bool) :
    ∀ items : List Json, toItems parts (ofItems seen items) = items
  | [] => rfl
  | x :: xs => by simp [ofItems, toItems, toJson_ofJsonWith parts seen x, toItems_ofItems parts seen xs]

theorem toFields_ofFields (parts : Nat → Json) (seen : Bool) :
    ∀ fields : List (String × Json), toFields parts (ofFields seen fields) = fields
  | [] => rfl
  | (k, x) :: xs => by
    simp [ofFields, toFields, toJson_ofJsonWith parts seen x, toFields_ofFields parts seen xs]

end

theorem expand_ofJson (parts : List Tree) (j : Json) : (ofJson j).expand parts = j :=
  toJson_ofJsonWith _ _ j

end Tree

end ScriptTrace
