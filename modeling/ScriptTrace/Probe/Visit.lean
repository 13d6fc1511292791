import ScriptTrace.Probe.Record
import ScriptTrace.Probe.Pass

/-!
# Placing probes

Each kind of node has a rule that puts probes into the node in focus, and `visit` takes the rule of the node's
type. A node is marked before its rule runs, and a marked node is left alone.

* functions record their call first and guard the rest of the body; a body that can fall off its end
  records a return;
* declarations and assignments queue records of what they wrote, to follow the statement;
* conditions are wrapped, loops record every iteration, and console output is redirected.

The rules take the visitor for the nodes below; `visitWith` ties the knot with a bound on the depth.
-/

namespace ScriptTrace

open Step

/-- Visits the focus; the node around it may give a function its name. -/
abbrev Visitor := Option Tree → Step Unit

namespace Visit

variable (visit : Visitor)

/-! ## Children -/

/-- Visits a field, with the focus as the node around it. -/
def field (key : String) : Step Unit := do
  let node ← focus
  inField key (visit (some node))

/-- Visits a field that holds a node whose assignments must not queue probes. -/
def headerField (key : String) : Step Unit := do
  match ← child? key with
  | some t => if t.isNode then quietly (field visit key)
  | none => return

/-- Visits the focus, or its items where it is a list. -/
def valueOrItems (parent : Tree) : Step Unit := do
  match ← focus with
  | .arr _ => discard (eachItem (visit (some parent)))
  | _ => visit (some parent)

/-- Visits all fields in the order written, positions apart. -/
def fields : Step Unit := do
  for key in (← focus).fieldNames do
    unless key == "loc" || key == "range" do
      let node ← focus
      inField key (valueOrItems visit node)

/-! ## Statements -/

/-- Types of statements after which the next statement is always reached. -/
def safeTypes : List String := ["ExpressionStatement", "VariableDeclaration"]

/-- Visits a statement of a list, and answers the probes to put around it. -/
def statement : Step Queue := do
  let t ← focus
  if !t.isNode || t.seen then return .empty false else
  let safe ← (layer t).hasTypeIn safeTypes
  return (← withQueue safe (visit none)).2

/-- Statements with their probes around them. -/
def weave : List Tree → List Queue → List Tree
  | t :: ts, q :: qs => q.before ++ t :: (q.after ++ weave ts qs)
  | ts, _ => ts

/-- Visits the statements in focus, and answers them with their probes. -/
def statements : Step (List Tree) := do
  let queues ← eachItem (statement visit)
  return weave (← (layer (← focus)).elements) queues

/-- Puts probes around the statements of the list in focus. -/
def statementList : Step Unit := do
  let woven ← statements visit
  changeList .wrongKind fun _ => woven

def block : Step Unit := inField "body" (statementList visit)

def switchCase : Step Unit := do
  if (← child? "test").isSome then field visit "test"
  inField "consequent" (statementList visit)

/-- Makes the statement under `key` a block. -/
def asBlock (key : String) : Step Unit := do
  match ← child? key with
  | some body =>
    if body.isNode then
      unless ← (layer body).hasType "BlockStatement" do
        setField key (Probe.block [← place key])
  | none => pure ()
  discard (place key)

/-! ## Functions -/

/-- Makes the expression an arrow function answers a block that returns it. -/
def arrowBody : Step Unit := do
  let body ← child "body"
  unless ← (layer body).hasType "BlockStatement" do
    let returned := [("type", .str "ReturnStatement"), ("argument", ← place "body"),
      ("loc", body.field "loc")]
    setField "body" (Probe.block [.obj false returned])
    setField "expression" (.bool false)

/-- The names bound by the parameters of the function in focus. -/
def paramNames : Step (List Json) := do
  let params ← plainField "params"
  if params.truthy then allBindingNames (← (layer params).elements) else return []

/-- Visits the parameters. -/
def params : Step Unit := do
  if ← flag "params" then
    let node ← focus
    discard (inField "params" (eachItem (quietly (visit (some node)))))

/-- Number of statements in front that are directives. -/
def directiveCount : List Tree → Step Nat
  | [] => return 0
  | t :: ts => do
    if ← (layer (← plain t)).flag "directive" then return (← directiveCount ts) + 1
    else return 0

/-- Whether control can reach the end of the statements. -/
def fallsOff (statements : List Tree) : Step Bool := do
  match statements.getLast? with
  | none => return true
  | some t => return !(← (layer (← resolve t)).hasType "ReturnStatement")

/-- The body of the function in focus: directives, the record of the call, and the guarded rest. -/
def instrumented (name : Json) (statements : List Tree) : Step (List Tree) := do
  let names ← paramNames
  let entry := Probe.called (← line) name names
  let count ← directiveCount statements
  let rest := statements.drop count
  let rest ← if ← fallsOff rest then pure (rest ++ [.ofProbe (Probe.returned (← endLine))]) else pure rest
  return statements.take count ++ [.ofProbe entry, Probe.guard rest (← endLine) name]

/-- The name of the function in focus. -/
def name (parent : Option Tree) : Step Json := do
  let node ← plain (← focus)
  let parent ← match parent with
    | some p => some <$> plain p
    | none => pure none
  (functionName (← get).classes node parent)

def function (parent : Option Tree) : Step Unit := do
  arrowBody
  if (← child "body").seen then return
  inField "body" mark
  let name ← name parent
  params visit
  let statements ← inField "body" (inField "body" (statements visit))
  let body ← instrumented name statements
  inField "body" (inField "body" (changeList .wrongKind fun _ => body))

/-- A method or property; its key is user code only when it is computed. -/
def member : Step Unit := do
  if ← flag "computed" then field visit "key"
  field visit "value"

def returnStatement : Step Unit := do
  if (← child? "argument").isSome then field visit "argument"
  let line ← line
  let argument ← if (← child? "argument").isSome then place "argument" else pure (.ofProbe .voidZero)
  setField "argument" (Probe.result line argument)

/-! ## Classes -/

/-- The base class and the members of a class. -/
def classParts (name : Json) : Step Unit := do
  if (← child? "superClass").isSome then field visit "superClass"
  inClass name (inField "body" do
    if ← flag "body" then
      let body ← focus
      discard (inField "body" (eachItem (visit (some body)))))

def className : Step Json := do
  let id ← plainField "id"
  if id.truthy then ((layer id).require "name") else return .str "AnonymousClass"

def classDeclaration : Step Unit := do
  let name ← className
  classParts visit name
  queueBefore (.ofProbe (Probe.declared (← line) name))

def classExpression (parent : Option Tree) : Step Unit := do
  classParts visit (← name parent)

/-- A class whose name is the node around it as it stands; null where there is none. -/
def namelessClass (parent : Option Tree) : Step Unit := do
  match parent with
  | some p => classParts visit (← plain p)
  | none => classParts visit .null

/-! ## Declarations and assignments -/

/-- A declarator: the record of each bound name follows the statement. -/
def declarator : Step Unit := do
  if (← child? "init").isSome then field visit "init"
  if (← get).queue.allowsAfter then
    let names ← (bindingNames (← plain (← place "id")))
    for name in names do
      queueAfter (.ofProbe (Probe.localsStatement "declare" (← line) [.named name]))

def declaration : Step Unit := discard (inField "declarations" (eachItem (declarator visit)))

/-- Queues the record of what the target under `key` wrote. -/
def queueAssign (key : String) : Step Unit := do
  let targets ← (targetsOf (← plain (← place key)))
  if !targets.isEmpty && (← get).queue.allowsAfter then
    queueAfter (.ofProbe (Probe.localsStatement "assign" (← line) targets))

def assignment : Step Unit := do
  field visit "left"
  field visit "right"
  queueAssign "left"

def update : Step Unit := do
  field visit "argument"
  queueAssign "argument"

/-! ## Output -/

/-- Methods of the console that print. -/
def printMethods : List String := ["log", "info", "warn", "error", "debug"]

/-- Whether a callee is one of the console's printing methods. -/
def isConsole (callee : Json) : Except Fault Bool := do
  let l := layer callee
  if !(← l.hasType "MemberExpression") || (← l.flag "computed") then return false else
  let object := layer (← l.require "object")
  if ((← object.optional "type").bind Json.string?) != some "Identifier" then return false else
  if (← object.require "name").string? != some "console" then return false else
  let method := (← (layer (← l.require "property")).optional "name").bind Json.string?
  return (method.map printMethods.contains).getD false

def call : Step Unit := do
  fields visit
  if ← (isConsole (← plain (← place "callee"))) then
    let arguments ← place "arguments"
    setField "callee" (.ofProbe (.ident (.str Probe.printName)))
    let line ← line
    setField "arguments" (.arr [.ofProbe (.literal line),
      Probe.node "ArrayExpression" [("elements", arguments)]])

/-! ## Branches and loops -/

def branch : Step Unit := do
  field visit "test"
  let test ← place "test"
  let text ← conditionText test
  setField "test" (Probe.test text (← line) test)
  asBlock "consequent"
  if (← child? "alternate").isSome then asBlock "alternate"
  field visit "consequent"
  if (← child? "alternate").isSome then field visit "alternate"

/-- The word for a kind of loop. -/
def loopTag : String → String
  | "WhileStatement" => "while"
  | "DoWhileStatement" => "do-while"
  | "ForOfStatement" => "for-of"
  | _ => "for-in"

/-- The names bound by the declarators of a declaration. -/
def declaredNames (declaration : Json) : Except Fault (List Json) := do
  let declarators ← (layer (← (layer declaration).require "declarations")).elements
  return (← declarators.mapM fun d => do bindingNames (← (layer d).require "id")).flatten

/-- The records of the variables a loop sets for an iteration. -/
def iterationProbes (line left : Json) : Except Fault (List Json) := do
  if !left.isNode then return []
  else if ← (layer left).hasType "VariableDeclaration" then
    return (← declaredNames left).map fun n => Probe.localsStatement "declare" line [.named n]
  else
    match ← targetsOf left with
    | [] => return []
    | targets => return [Probe.localsStatement "assign" line targets]

/-- A loop that records every iteration at the start of its body. -/
def loop (type : String) : Step Unit := do
  headerField visit "left"
  headerField visit "right"
  headerField visit "test"
  asBlock "body"
  field visit "body"
  let line ← line
  let entry := Probe.statement "loop" line [("loopType", .literal (.str (loopTag type)))]
  let probes := entry :: (← (iterationProbes line (← plainField "left")))
  inField "body" (inField "body" (changeList .wrongKind (probes.map .ofProbe ++ ·)))

/-- The initializer of a counted loop: probes as one more declarator, or after the expression. -/
def loopInit (line : Json) : Step Unit := do
  let init ← plainField "init"
  if !init.isNode then return
  if ← (layer init).hasType "VariableDeclaration" then
    let names ← (declaredNames init)
    unless names.isEmpty do
      let probes := names.map fun n => Probe.locals "declare" line [.named n]
      let declarator := Probe.initDeclarator (← freshNumber) probes
      inField "init" (inField "declarations" (changeList .unsupported (· ++ [.ofProbe declarator])))
  else
    let probe ← match ← (writtenTargets init) with
      | [] => do
        let text ← conditionText (← place "init")
        pure (Probe.record "init" line [("expression", .literal text)])
      | targets => pure (Probe.locals "assign" line targets)
    setField "init" (Probe.followed (← place "init") probe)

/-- The update of a counted loop, followed by the record of what it wrote. -/
def loopUpdate (line : Json) : Step Unit := do
  let update ← plainField "update"
  unless !update.isNode do
    match ← (writtenTargets update) with
    | [] => return
    | targets => setField "update" (Probe.followed (← place "update") (Probe.locals "assign" line targets))

/-- The record of a counted loop's test, at the start of the body. -/
def loopTest (line : Json) : Step Unit := do
  if ((← child? "test").map Tree.isNode).getD false then
    inField "body" (inField "body" (changeList .unsupported id))
    let text ← conditionText (← place "test")
    let probe := Probe.statement "test" line [("expression", .literal text), ("result", .literal (.bool true))]
    inField "body" (inField "body" (changeList .unsupported (.ofProbe probe :: ·)))

/-- A counted loop: the initializer, the test and the update are recorded each on their own. -/
def countedLoop : Step Unit := do
  let line ← line
  headerField visit "init"
  headerField visit "test"
  headerField visit "update"
  loopInit line
  loopUpdate line
  asBlock "body"
  field visit "body"
  loopTest line

/-! ## All nodes -/

/-- The rule for a node of a type. Three of the words are no types of nodes: rules for headers, lists of statements and
classes answer to them, the first with nothing left to visit, the second with a node where it takes a list, the third
with a node where it takes a name.

A constructor takes the name of its class into its records. Where this is the node around the class, they hold that node
as it was when the class was met; that it goes on to change inside of them, and is marked with them, is not modelled. -/
def rule (type : String) (parent : Option Tree) : Step Unit :=
  match type with
  | "Program" | "BlockStatement" => block visit
  | "SwitchCase" => switchCase visit
  | "FunctionDeclaration" | "FunctionExpression" | "ArrowFunctionExpression" => function visit parent
  | "MethodDefinition" | "Property" => member visit
  | "ReturnStatement" => returnStatement visit
  | "ClassDeclaration" => classDeclaration visit
  | "ClassExpression" => classExpression visit parent
  | "VariableDeclaration" => declaration visit
  | "AssignmentExpression" => assignment visit
  | "UpdateExpression" => update visit
  | "CallExpression" => call visit
  | "IfStatement" => branch visit
  | "WhileStatement" | "DoWhileStatement" | "ForOfStatement" | "ForInStatement" => loop visit type
  | "ForStatement" => countedLoop visit
  | "LabeledStatement" => field visit "body"
  | "header" => return
  | "statements" => throw .wrongKind
  | "class" => namelessClass visit parent
  | _ => fields visit

/-- Visits the value in focus: a node that is not marked is marked and worked on by its rule. -/
def node (parent : Option Tree) : Step Unit := do
  let t ← focus
  if !t.isNode || t.seen then return
  mark
  match ← place "type" with
  | .str type => rule visit type parent
  | _ => throw .wrongKind

end Visit

/-- The visitor of trees with the given depth of nodes at most. -/
def visitWith : Nat → Visitor
  | 0 => fun _ => throw .tooDeep
  | depth + 1 => Visit.node (visitWith depth)

end ScriptTrace
