import ScriptTrace.Syntax.Layer
import ScriptTrace.Syntax.Printer.Statement
import ScriptTrace.Text.Blank

/-!
# What a node tells about itself

* `Node.line`, `Node.endLine` : the lines where a node starts and ends, `-1` when they are not known;
* `Node.sourceText` : the part of the program a node was read from;
* `Node.conditionText` : the text by which a test is shown;
* `Node.children` : the nodes directly below a node, in the order written.
-/

namespace ScriptTrace

namespace Node

/-- The line of one end of a position; none when the position has no such end. -/
def lineAt (which : String) (loc : Json) : Except Fault (Option Json) := do
  if !loc.truthy then return none else
  match (← (layer loc).optional which).filter (·.truthy) with
  | none => return none
  | some place =>
    let _ ← (layer place).optional "line"
    return some ((place.get? "line").getD (.int (-1)))

/-- The line in which a position starts. -/
def lineOf (loc : Json) : Except Fault Json := do
  return (← lineAt "start" loc).getD (.int (-1))

/-- The line in which a position ends, or else starts. -/
def endLineOf (loc : Json) : Except Fault Json := do
  match ← lineAt "end" loc with
  | some line => return line
  | none => lineOf loc

/-- The position of a node; none for a value that is no node. -/
def position (node : Json) : Json := if node.isNode then node.field "loc" else .null

def line (node : Json) : Except Fault Json := lineOf (position node)

def endLine (node : Json) : Except Fault Json := endLineOf (position node)

/-! ## Source text -/

/-- An end of a range; null stands for the end of the text on that side. -/
def bound : Json → Except Fault (Option Int)
  | .null => .ok none
  | .int n => .ok (some n)
  | .bool b => .ok (some (if b then 1 else 0))
  | _ => .error .wrongKind

/-- A place in a text of `size` characters; a negative one counts from the end. -/
def placeIn (size : Nat) (i : Int) : Nat := if i < 0 then (i + size).toNat else min i.toNat size

/-- The characters between two places. -/
def slice (text : String) (start stop : Option Int) : String :=
  let cs := text.toList
  let a := (start.map (placeIn cs.length)).getD 0
  let b := (stop.map (placeIn cs.length)).getD cs.length
  String.ofList ((cs.take b).drop a)

/-- The two ends of a range; none unless there are two. -/
def rangeEnds : Json → Except Fault (Option (Json × Json))
  | .arr [a, b] => .ok (some (a, b))
  | .arr _ => .ok none
  | .str s => if s.length = 2 then .error .wrongKind else .ok none
  | .obj fields => if fields.length = 2 then .error (.missing (.int 0)) else .ok none
  | _ => .error .wrongKind

/-- The part of the program a node was read from, when both are known. -/
def sourceText (node : Json) (code : Option String) : Except Fault (Option String) := do
  let range := if node.isNode then node.field "range" else .null
  match code with
  | none | some "" => return none
  | some code =>
    if !range.truthy then return none else
    match ← rangeEnds range with
    | none => return none
    | some (a, b) => return some (slice code (← bound a) (← bound b))

/-- A condition on one line: the source text, or else the printed form. -/
def conditionText (node : Json) (code : Option String) : Except Fault String := do
  match ← sourceText node code with
  | some text => return squeeze text
  | none =>
    match ← printNode node with
    | .str text => return squeeze text
    | _ => .error .unsupported

/-! ## Children -/

/-- Fields that hold no part of the tree. -/
def metaKeys : List String := ["loc", "range", "leadingComments", "trailingComments"]

variable {α : Type} [Layered α]

/-- The nodes of one field: its value, or the items of a list. -/
def childrenIn (value : α) : List α :=
  match layer value with
  | .arr items => items.filter fun x => (layer x).isNode
  | l => if l.isNode then [value] else []

/-- The nodes directly below a value with the given layer. -/
def childrenOf : Layer α → Except Fault (List α)
  | .obj fields => .ok ((fields.filter fun f => !metaKeys.contains f.1).flatMap fun f => childrenIn f.2)
  | _ => .error .unsupported

/-- The nodes directly below a node. -/
def children (node : α) : Except Fault (List α) := childrenOf (layer node)

end Node

end ScriptTrace
