import ScriptTrace.Syntax.Annotated
import ScriptTrace.Syntax.Precedence

/-!
# Values with their printed forms

To print a tree, every value is first given its printed forms, from the leaves up: the text of a node
is made from the forms of its children.

* `Place` : what the text of a node depends on besides the node;
* `Fragment` : an expression's text with how tightly it binds;
* `Forms` : a value as a statement and as an expression; `Printable` : a value with its forms.

The text of a fragment is a JSON value: the name of an identifier and the raw text of a literal are
handed on as they are, and one that is no string is found out where it is joined to other text.
-/

namespace ScriptTrace

/-- Where a node is printed: the depth of indentation, and whether a bare `in` would end the head of
a counted loop. -/
structure Place where
  level : Nat
  inHead : Bool
  deriving DecidableEq, Repr

namespace Place

def top : Place := ⟨0, false⟩

def deeper (place : Place) : Place := { place with level := place.level + 1 }

def head (place : Place) : Place := { place with inHead := true }

/-- The indentation of a line. -/
def pad (place : Place) : String := String.join (List.replicate place.level "  ")

end Place

/-- The text of an expression and its precedence. -/
structure Fragment where
  text : Json
  precedence : Precedence
  deriving Inhabited

/-- The printed forms of a value. `callInside` tells whether a chain of members holds a call. -/
structure Forms where
  callInside : Except Fault Bool
  statement : Place → Except Fault String
  fragment : Place → Except Fault Fragment

/-- A value that is no node prints in no form. -/
def Forms.none (truthy : Bool) : Forms where
  callInside := if truthy then .error .wrongKind else .ok false
  statement _ := .error .wrongKind
  fragment _ := .error .wrongKind

instance : Inhabited Forms := ⟨.none true⟩

/-- A value with its printed forms. -/
abbrev Printable := Annotated Forms

/-- Text that can be joined to other text. -/
def asText : Json → Except Fault String
  | .str s => .ok s
  | _ => .error .wrongKind

/-- Texts with a comma between them. -/
def joined (parts : List Json) : Except Fault String := do
  return ", ".intercalate (← parts.mapM asText)

namespace Printable

def callInside (p : Printable) : Except Fault Bool := p.note.callInside

def statement (place : Place) (p : Printable) : Except Fault String := p.note.statement place

def fragment (place : Place) (p : Printable) : Except Fault Fragment := p.note.fragment place

/-- The expression at a place that requires a precedence, in parentheses where it binds less. -/
def expression (place : Place) (required : Precedence) (p : Printable) : Except Fault Json := do
  let fragment ← p.fragment place
  if fragment.precedence < required then return .str ("(" ++ (← asText fragment.text) ++ ")")
  else return fragment.text

/-- The expression as text. -/
def expressionText (place : Place) (required : Precedence) (p : Printable) : Except Fault String := do
  asText (← p.expression place required)

/-- The text of the field under `key`. -/
def textOf (key : String) (l : Layer Printable) : Except Fault String := do
  asText (← l.require key).source

/-- The name of the identifier under `key`. -/
def nameOf (key : String) (l : Layer Printable) : Except Fault String := do
  textOf "name" (layer (← l.require key))

end Printable

end ScriptTrace
