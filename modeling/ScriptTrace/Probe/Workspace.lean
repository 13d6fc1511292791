import ScriptTrace.Probe.Visit

/-!
# Instrumenting programs

* `instrument` : a program with the probes that record events when it runs;
* `Workspace` : several programs that may hold the same statements, and what instrumenting remembers
  from one program to the next: the marks on nodes, and the number of loop variables introduced.

A fault leaves the programs of a workspace as far as they were worked on.
-/

namespace ScriptTrace

/-- Why a program cannot be instrumented. -/
inductive Rejection where
  /-- The value is no program. -/
  | notProgram
  /-- A fault was met while probes were placed. -/
  | malformed (fault : Fault)
  /-- The tree with its probes has no printed form. -/
  | notGenerated (fault : Fault)
  /-- The parser found an error. -/
  | syntaxError (text : String)
  /-- The parser gave up on the nesting. -/
  | nestedTooDeeply
  deriving Inhabited

namespace Rejection

/-- The message of a rejection; none where the fault behind it is not told. -/
def message? : Rejection → Option String
  | notProgram => some "Expected an ESTree Program node"
  | malformed (.missing key) => some ("Malformed syntax tree: KeyError(" ++ key.inspect ++ ")")
  | malformed _ => none
  | notGenerated fault => fault.message?.map ("Cannot generate instrumented code: " ++ ·)
  | syntaxError text => some ("SyntaxError: " ++ text)
  | nestedTooDeeply => some "SyntaxError: program is nested too deeply"

end Rejection

/-- What reading and instrumenting a program can end with other than a program. -/
inductive Refusal where
  | rejected (reason : Rejection)
  /-- A fault that is reported as it is: a condition without a printed form, for one. -/
  | escaped (fault : Fault)
  /-- The parser failed in a way that is no finding about the program. -/
  | crashed (text : String)
  deriving Inhabited

/-- The refusal that a fault met while placing probes leads to. -/
def Refusal.ofFault : Fault → Refusal
  | .unprintable form type => .escaped (.unprintable form type)
  | fault => .rejected (.malformed fault)

structure Workspace where
  code : Option String
  /-- The programs. -/
  trees : List Tree
  /-- Statements and parts of them that several places hold. -/
  parts : List Tree
  /-- How many loop variables have been introduced. -/
  counter : Nat
  deriving Inhabited

namespace Workspace

def ofTrees (code : Option String) (trees : List Json) : Workspace :=
  ⟨code, trees.map .ofJson, [], 0⟩

def tree (w : Workspace) (i : Nat) : Tree := w.trees.getD i .null

/-- The plain JSON of a program as it stands. -/
def plain (w : Workspace) (i : Nat) : Json := (w.tree i).expand w.parts

/-- Whether a value is a program. -/
def isProgram (t : Tree) : Bool := t.isNode && (layer (t.field "type")).isString "Program"

/-- The depth of nodes to be met: at most one node is put around each. -/
def visitDepth (j : Json) : Nat := 2 * j.depth + 2

/-- Instruments a program in place. -/
def instrument (w : Workspace) (i : Nat) : Except Refusal Unit × Workspace :=
  let t := w.tree i
  if !isProgram t then (.error (.rejected .notProgram), w) else
  let start : Pass := ⟨t, w.parts, w.code, .empty false, [], w.counter⟩
  let (r, done) := (visitWith (visitDepth (w.plain i)) none).effect start
  (r.mapError .ofFault,
    { w with trees := w.trees.set i done.focus, parts := done.parts, counter := done.counter })

/-- Forgets which nodes have been dealt with. -/
def refresh (w : Workspace) : Workspace :=
  { w with trees := w.trees.map .clear, parts := w.parts.map .clear, counter := 0 }

/-! ## Sharing -/

/-- Makes a value a shared part, unless it is one already or has no parts of its own. -/
def share (parts : List Tree) (t : Tree) : Tree × List Tree :=
  match t with
  | .obj _ _ | .arr _ => (.shared parts.length, parts ++ [t])
  | t => (t, parts)

/-- Shares each of some values. -/
def shareAll (parts : List Tree) : List Tree → List Tree × List Tree
  | [] => ([], parts)
  | t :: ts =>
    let (t, parts) := share parts t
    let (ts, parts) := shareAll parts ts
    (t :: ts, parts)

/-- The statements of a program, looked up where its list is shared. -/
def bodyOf (w : Workspace) (i : Nat) : Except Fault (List Tree) := do
  let body ← (layer (w.tree i)).require "body"
  match body with
  | .arr items => return items
  | .shared k =>
    match w.parts.getD k .null with
    | .arr items => return items
    | _ => throw .wrongKind
  | _ => throw .wrongKind

/-- Gives a program a list of statements. -/
def setBody (w : Workspace) (i : Nat) (items : List Tree) : Workspace :=
  match (w.tree i).field "body" with
  | .shared k => { w with parts := w.parts.set k (.arr items) }
  | _ => { w with trees := w.trees.set i ((w.tree i).setField "body" (.arr items)) }

/-- A new program of the given statements. -/
def addProgram (w : Workspace) (items : List Tree) : Workspace :=
  { w with trees := w.trees ++ [.obj false [("type", .str "Program"), ("body", .arr items)]] }

/-- Adds a statement at the end of a program. -/
def append (w : Workspace) (i : Nat) (statement : Json) : Except Fault Workspace := do
  return w.setBody i ((← w.bodyOf i) ++ [.ofJson statement])

/-- Makes the statements of a program shared parts, and answers their places. -/
def shareBody (w : Workspace) (i : Nat) : Except Fault (List Tree × Workspace) := do
  let (items, parts) := shareAll w.parts (← w.bodyOf i)
  return (items, { w with parts := parts }.setBody i items)

/-- The statements of several programs in order, all shared. -/
def shareBodies : List Nat → Workspace → Except Fault (List Tree × Workspace)
  | [], w => return ([], w)
  | i :: rest, w => do
    let (items, w) ← w.shareBody i
    let (others, w) ← shareBodies rest w
    return (items ++ others, w)

/-- Adds a program that holds the very statements of other programs. -/
def join (w : Workspace) (programs : List Nat) : Except Fault Workspace := do
  let (items, w) ← shareBodies programs w
  return w.addProgram items

/-- A copy of a statement that shares all its parts with it: the copy, and the statement afterwards. -/
def copyOf (parts : List Tree) (t : Tree) : (Tree × Tree) × List Tree :=
  match t with
  | .obj seen fields =>
    let (values, parts) := shareAll parts (fields.map (·.2))
    let fields := (fields.map (·.1)).zip values
    ((.obj false fields, .obj seen fields), parts)
  | t => ((t, t), parts)

/-- Copies a statement where it stands. -/
def copyAt (parts : List Tree) (t : Tree) : (Tree × Tree) × List Tree :=
  match t with
  | .shared k =>
    let ((copy, kept), parts) := copyOf parts (parts.getD k .null)
    ((copy, t), parts.set k kept)
  | t => copyOf parts t

/-- Copies each of some statements. -/
def copyAll (parts : List Tree) : List Tree → (List Tree × List Tree) × List Tree
  | [] => (([], []), parts)
  | t :: ts =>
    let ((copy, kept), parts) := copyAt parts t
    let ((copies, others), parts) := copyAll parts ts
    ((copy :: copies, kept :: others), parts)

/-- Adds a program whose statements are copies that share their parts with those of a program. -/
def clone (w : Workspace) (i : Nat) : Except Fault Workspace := do
  let ((copies, kept), parts) := copyAll w.parts (← w.bodyOf i)
  return ({ w with parts := parts }.setBody i kept).addProgram copies

end Workspace

/-- The program of a tree with the probes that record events when it runs. -/
def instrument (tree : Json) (code : Option String) : Except Refusal Json :=
  let (r, w) := (Workspace.ofTrees code [tree]).instrument 0
  r.map fun _ => w.plain 0

/-- The text of an instrumented tree. -/
def instrumentedText (tree : Json) (code : Option String) : Except Refusal String := do
  match printNode (← instrument tree code) with
  | .ok (.str text) => return text
  | .ok _ => throw (.escaped .unsupported)
  | .error .unsupported => throw (.escaped .unsupported)
  | .error fault => throw (.rejected (.notGenerated fault))

end ScriptTrace
