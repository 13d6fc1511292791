import ScriptTrace.Service.Request
import ScriptTrace.Service.Source
import ScriptTrace.Syntax.Annotated

/-!
# Drawing syntax trees

A tree is drawn with one box for every node. Boxes are numbered in the order in which they are met, a node
before its children; an edge is added when the child's whole subtree is drawn.

* `nodeLabel` : the text in a node's box;
* `Sketch`, `sketch` : the labels of a tree, before boxes have numbers;
* `Drawing`, `Sketch.draw` : boxes and edges;
* `drawSource` : the drawing of a program, with or without probes.
-/

namespace ScriptTrace

/-- Why a tree is not drawn. -/
inductive DrawingFault where
  /-- Reading or instrumenting the program failed. -/
  | refused (refusal : Refusal)
  /-- The tree is malformed. -/
  | malformed (fault : Fault)
  /-- A value has no fields where a node is expected. -/
  | fieldless (value : Json)
  deriving Inhabited

namespace DrawingFault

/-- What is told of a fault that is no finding about the program. -/
def unexpected (text : String) : String := "An unexpected error occurred: " ++ text

def message : DrawingFault → String
  | refused (.rejected reason) => "Invalid JavaScript Code: " ++ reason.message?.getD ""
  | refused (.escaped fault) => unexpected (fault.message?.getD "")
  | refused (.crashed text) => unexpected text
  | malformed fault => unexpected (fault.message?.getD "")
  | fieldless value =>
    unexpected (inspectString value.kindWord ++ " object has no attribute " ++ inspectString "get")

end DrawingFault

/-! ## Labels -/

/-- A second line of a label; the line break is written as a backslash and a letter. -/
def labelLine (name value : String) : String := "\\n(" ++ name ++ "=" ++ value ++ ")"

def singleQuoted (s : String) : String := "'" ++ s ++ "'"

/-- A field that must be there. -/
def requireField (name : String) (node : Json) : Except DrawingFault Json :=
  ((layer node).require name).mapError .malformed

/-- Whether a node is known by an identifier. -/
def isIdentifier (id : Json) : Except DrawingFault Bool :=
  match id with
  | .obj _ => .ok ((id.field "type").string? == some "Identifier")
  | value => if value.truthy then .error (.fieldless value) else .ok false

/-- The second line of a label: a name, the text of a literal, or an operator. -/
def labelDetail (type node : Json) : Except DrawingFault (Option String) := do
  let id := node.field "id"
  if ← isIdentifier id then
    return some (labelLine "name" (singleQuoted (← requireField "name" id).shown))
  else if type.string? = some "Identifier" then
    return some (labelLine "name" (singleQuoted (← requireField "name" node).shown))
  else if type.string? = some "Literal" then
    return some (labelLine "value" (node.field "raw").shown)
  else
    return (node.get? "operator").map fun operator => labelLine "op" (singleQuoted operator.shown)

/-- The label of a node: its type, and a second line if there is more to tell. -/
def nodeLabel (node : Json) : Except DrawingFault Json := do
  let type ← requireField "type" node
  match ← labelDetail type node, type with
  | none, type => return type
  | some detail, .str type => return .str (type ++ detail)
  | some _, _ => throw (.malformed .wrongKind)

/-! ## Boxes and edges -/

/-- A tree of labels. -/
inductive Sketch where
  | node (label : Json) (children : List Sketch)
  deriving Inhabited

instance : Inhabited (Except DrawingFault Sketch) := ⟨.error (.malformed .unsupported)⟩

/-- The sketch of a node from those of the nodes below it. -/
def sketchRule (l : Layer (Annotated (Except DrawingFault Sketch))) : Except DrawingFault Sketch := do
  let label ← nodeLabel (Annotated.plain l)
  let below ← (Node.childrenOf l).mapError .malformed
  return .node label (← below.mapM Annotated.note)

/-- The labels of a tree; the first node without a label decides. -/
def sketch (tree : Json) : Except DrawingFault Sketch := tree.note sketchRule

/-- Boxes with their numbers, and edges between numbers, each in the order of adding. -/
structure Drawing where
  boxes : List (Nat × Json) := []
  edges : List (Nat × Nat) := []
  deriving Inhabited, Repr

mutual

/-- The drawing of a tree with numbers from `n` on. -/
def Sketch.draw (n : Nat) : Sketch → Drawing
  | .node label children =>
    let below := drawChildren n (n + 1) children
    ⟨(n, label) :: below.boxes, below.edges⟩

/-- The drawings of the children of box `parent`, with numbers from `n` on. -/
def drawChildren (parent n : Nat) : List Sketch → Drawing
  | [] => {}
  | child :: rest =>
    let first := child.draw n
    let others := drawChildren parent (n + first.boxes.length) rest
    ⟨first.boxes ++ others.boxes, first.edges ++ (parent, n) :: others.edges⟩

end

/-- The drawing of a tree. -/
def drawTree (tree : Json) : Except DrawingFault Drawing := do
  return (← sketch tree).draw 0

/-- The drawing of a program, with its probes if they are asked for. -/
def drawSource (request : DrawingRequest) (reply : ParserReply) : Except DrawingFault Drawing := do
  let tree ← (parseProgram reply).mapError .refused
  if request.instrumented then
    drawTree (← (instrument tree (some request.code)).mapError .refused)
  else drawTree tree

end ScriptTrace
