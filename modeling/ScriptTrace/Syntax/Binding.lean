import ScriptTrace.Syntax.Annotated
import ScriptTrace.Syntax.Build

/-!
# Names and targets

* `bindingNames` : the names bound by a declaration target or a parameter, in source order;
* `targetsOf` : what is to be looked at after a target was written;
* `writtenTargets` : the targets of the assignments an expression consists of;
* `functionName` : the name under which a function is reported.

Names are JSON values: in a malformed tree a name need not be a string.
-/

namespace ScriptTrace

/-! ## Bound names -/

/-- The names of the patterns in a list of values. -/
def namesOf {α : Type} (parts : List (Annotated (Except Fault (List α)))) : Except Fault (List α) := do
  return (← parts.mapM Annotated.note).flatten

instance {α : Type} : Inhabited (Except Fault (List α)) := ⟨.ok []⟩

/-- The names bound by one member of an object pattern. -/
def memberNames (p : Annotated (Except Fault (List Json))) : Except Fault (List Json) := do
  let type := (← (layer p).optional "type").map (layer ·)
  if (type.map (·.isString "RestElement")).getD false then p.note
  else namesOf (← (layer p).optional "value").toList

/-- The names bound by a pattern, from those bound by its parts. -/
def nameRule (l : Layer (Annotated (Except Fault (List Json)))) : Except Fault (List Json) := do
  if !l.isNode then return []
  else if ← l.hasType "Identifier" then return [(← l.require "name").source]
  else if ← l.hasType "AssignmentPattern" then namesOf (← l.optional "left").toList
  else if ← l.hasType "RestElement" then namesOf (← l.optional "argument").toList
  else if ← l.hasType "ArrayPattern" then namesOf (← l.elementsOf "elements")
  else if ← l.hasType "ObjectPattern" then
    return (← (← l.elementsOf "properties").mapM memberNames).flatten
  else return []

/-- The names bound by a declaration target or parameter pattern, in source order. -/
def bindingNames (pattern : Json) : Except Fault (List Json) := pattern.note nameRule

/-- The names bound by several patterns, in order. -/
def allBindingNames (patterns : List Json) : Except Fault (List Json) := do
  return (← patterns.mapM bindingNames).flatten

/-! ## Written targets -/

/-- A variable to look at: the key it is reported under, and the expression that reads it. -/
structure Target where
  key : Json
  expression : Json
  deriving Inhabited

/-- A variable known by its name. -/
def Target.named (name : Json) : Target := ⟨name, .ident name⟩

instance : Inhabited (Except Fault (Option Target)) := ⟨.error .wrongKind⟩

/-- The variable at the root of a chain of members; none when the root is no plain name. -/
def rootRule (l : Layer (Annotated (Except Fault (Option Target)))) : Except Fault (Option Target) := do
  if ← l.hasType "MemberExpression" then (← l.require "object").note
  else if ← l.hasType "ThisExpression" then return some ⟨.str "this", .thisNode⟩
  else if ← l.hasType "Identifier" then return some (.named (← l.require "name").source)
  else return none

/-- What to look at after `target` was written. A write to a member shows the variable at its root. -/
def targetsOf (target : Json) : Except Fault (List Target) := do
  let l := layer target
  if !l.isNode then return []
  else if ← l.hasType "Identifier" then return [.named (← l.require "name")]
  else if ← l.hasType "MemberExpression" then return (← target.note rootRule).toList
  else if ← l.hasTypeIn ["ObjectPattern", "ArrayPattern", "AssignmentPattern", "RestElement"] then
    return (← bindingNames target).map .named
  else return []

/-- The targets of an expression, from those of the items of a sequence. -/
def writtenRule (l : Layer (Annotated (Except Fault (List Target)))) : Except Fault (List Target) := do
  if !l.isNode then return []
  else if ← l.hasType "AssignmentExpression" then targetsOf (← l.require "left").source
  else if ← l.hasType "UpdateExpression" then targetsOf (← l.require "argument").source
  else if ← l.hasType "SequenceExpression" then namesOf (← (layer (← l.require "expressions")).elements)
  else return []

/-- The targets of the assignments and updates that an expression is a sequence of. -/
def writtenTargets (expression : Json) : Except Fault (List Target) := expression.note writtenRule

/-! ## Names of functions -/

def anonymous : Json := .str "anonymous"

/-- The name that a property key gives, none when the key is neither a name nor a literal. -/
def keyName (key : Json) : Except Fault (Option Json) := do
  if ← (layer key).hasType "Identifier" then return some (← (layer key).require "name")
  else if ← (layer key).hasType "Literal" then return some (.str (← (layer key).require "value").shown)
  else return none

/-- The name that the left side of an assignment gives. -/
def leftName (left : Json) : Except Fault (Option Json) := do
  if ← (layer left).hasType "Identifier" then return some (← (layer left).require "name")
  else if ← (layer left).hasType "MemberExpression" then
    if ← (layer left).flag "computed" then return none
    else return some (← (layer (← (layer left).require "property")).require "name")
  else return none

/-- The name that the node around a function gives it; `classes` are the enclosing classes, the
innermost first. -/
def nameFromParent (classes : List Json) (parent : Json) : Except Fault (Option Json) := do
  let l := layer parent
  if ← l.hasType "VariableDeclarator" then
    let id ← l.require "id"
    if ← (layer id).hasType "Identifier" then return some (← (layer id).require "name") else return none
  else if ← l.hasType "AssignmentExpression" then leftName (← l.require "left")
  else
    let inClass ← l.hasType "MethodDefinition"
    let constructs := inClass && (parent.field "kind").string? == some "constructor"
    match constructs, classes with
    | true, innermost :: _ => return some innermost
    | _, _ =>
      if !(← l.hasTypeIn ["Property", "MethodDefinition"]) then return none
      else if ← l.flag "computed" then return none
      else keyName (← l.require "key")

/-- The name under which a function is reported: its own, or one that the node around it gives. -/
def functionName (classes : List Json) (node : Json) (parent : Option Json) : Except Fault Json := do
  match (← (layer node).optional "id").filter (·.truthy) with
  | some id => (layer id).require "name"
  | none =>
    match parent with
    | none => return anonymous
    | some parent => return (← nameFromParent classes parent).getD anonymous

end ScriptTrace
