import ScriptTrace.Proofs.Grammar
import ScriptTrace.Probe.Visit

/-!
# What instrumenting does to a program

The visits of a pass described without the pass: no focus, no queues and no marks, and every name, line
and list of targets is that of the node as it was written.

* `Json.writes` : the records of the assignments and declarations in a statement, in visiting order;
* `Json.declares` : the record of a class that is declared;
* `Rewrites` : how a value relates to what the pass makes of it. A node is prepared, its fields are
  rewritten each by itself, and some are framed with probes afterwards;
* `weave` : a list of statements, each between the records that belong to it.
-/

namespace ScriptTrace

open Probe

namespace Rewriting

def functionTypes : List String := ["FunctionDeclaration", "FunctionExpression", "ArrowFunctionExpression"]

def classTypes : List String := ["ClassDeclaration", "ClassExpression"]

def loopTypes : List String := ["WhileStatement", "DoWhileStatement", "ForOfStatement", "ForInStatement"]

/-! ## Which fields are visited -/

/-- Whether a key of a property or method is computed. -/
def isComputed (fields : Fields Json) : Bool := (Fields.get? "computed" fields).any Json.truthy

/-- The fields that the rules of most types visit, in their order. -/
def visitTable : List (List String × List String) :=
  [(["Program", "BlockStatement", "LabeledStatement", "ClassBody"], ["body"]),
    (["SwitchCase"], ["test", "consequent"]),
    (functionTypes, ["params", "body"]),
    (["ReturnStatement", "UpdateExpression"], ["argument"]),
    (classTypes, ["superClass", "body"]),
    (["VariableDeclaration"], ["declarations"]),
    (["VariableDeclarator"], ["init"]),
    (["AssignmentExpression"], ["left", "right"]),
    (["IfStatement"], ["test", "consequent", "alternate"]),
    (loopTypes, ["left", "right", "test", "body"]),
    (["ForStatement"], ["init", "test", "update", "body"])]

/-- The fields that the rule of a type visits; none where all fields are visited in the order written. -/
def visitedFields (type : String) (fields : Fields Json) : Option (List String) :=
  if type ∈ ["MethodDefinition", "Property"] then
    some (if isComputed fields then ["key", "value"] else ["value"])
  else ofGroup type visitTable

/-- Fields that are visited apart from the statement around: parameters and bodies of functions, lists
of statements, headers of loops, and branches. -/
def apartTable : List (List String × List String) :=
  [(["Program", "BlockStatement"], ["body"]),
    (["SwitchCase"], ["consequent"]),
    (functionTypes, ["params", "body"]),
    (["IfStatement"], ["consequent", "alternate"]),
    (loopTypes, ["left", "right", "test", "body"]),
    (["ForStatement"], ["init", "test", "update", "body"])]

def isApart (type key : String) : Bool := ((ofGroup type apartTable).getD []).contains key

/-- The fields in which assignments count as those of the statement around, in visiting order. -/
def sameStatement (type : String) (fields : Fields Json) : List String :=
  match visitedFields type fields with
  | some keys => keys.filter fun key => !isApart type key
  | none => (Fields.names fields).filter fun key => !(key == "loc" || key == "range")

/-! ## Records that follow a statement -/

/-- What a successful computation answers, and nothing for one that fails. -/
def answers {α : Type} (r : Except Fault (List α)) : List α :=
  match r with
  | .ok xs => xs
  | .error _ => []

/-- The record of a write to a target, none where there is nothing to show. -/
def assigned (fields : Fields Json) (target : Json) : Except Fault (List Json) := do
  match ← targetsOf target with
  | [] => return []
  | targets => return [localsStatement "assign" (← Node.line (.obj fields)) targets]

/-- The records of the names that a declarator binds. -/
def bound (fields : Fields Json) (target : Json) : Except Fault (List Json) := do
  (← bindingNames target).mapM fun name => return localsStatement "declare" (← Node.line (.obj fields)) [.named name]

/-- The records that a node itself contributes. -/
def ownWrites (fields : Fields Json) : List Json :=
  match Fields.type? fields with
  | some "AssignmentExpression" => answers (assigned fields (Json.field "left" (.obj fields)))
  | some "UpdateExpression" => answers (assigned fields (Json.field "argument" (.obj fields)))
  | some "VariableDeclarator" => answers (bound fields (Json.field "id" (.obj fields)))
  | _ => []

/-- The records of a node: those of its parts in visiting order, then its own. -/
def writesOf (fields : Fields Json) (below : Fields (List Json)) : List Json :=
  match Fields.type? fields with
  | none => []
  | some type =>
    (sameStatement type fields).flatMap (fun key => (Fields.get? key below).getD []) ++ ownWrites fields

end Rewriting

namespace Json

open Rewriting

mutual

/-- The records of the assignments, updates and declarations in a node or a list of nodes, in visiting
order. Parameters and bodies of functions, nested statement lists, headers of loops and patterns of
declarators do not count. -/
def writes : Json → List Json
  | .arr items => writesItems items
  | .obj fields => writesOf fields (writesFields fields)
  | _ => []

def writesItems : List Json → List Json
  | [] => []
  | x :: xs => (if x.isNode then writes x else []) ++ writesItems xs

def writesFields : List (String × Json) → List (String × List Json)
  | [] => []
  | (k, x) :: xs => (k, writes x) :: writesFields xs

end

theorem writes_arr (items : List Json) : (arr items).writes = items.flatMap fun v => if v.isNode then v.writes else [] := by
  rw [writes]
  induction items with
  | nil => rfl
  | cons v items ih => rw [writesItems, ih, List.flatMap_cons]

theorem writesFields_eq_mapValues : ∀ fields : Fields Json, writesFields fields = Fields.mapValues writes fields
  | [] => rfl
  | (_, _) :: rest => by rw [writesFields, writesFields_eq_mapValues rest, Fields.mapValues_cons]

/-- The record of a class declaration; none for other nodes. -/
def declares (j : Json) : List Json :=
  match j with
  | .obj fields =>
    if Fields.type? fields = some "ClassDeclaration" then
      let id := Json.field "id" j
      let name := if id.truthy then (layer id).require "name" else .ok (.str "AnonymousClass")
      answers (do return [Probe.declared (← Node.line j) (← name)])
    else []
  | _ => []

/-- The records that follow a statement: only where the next statement is always reached. -/
def writesAfter (s : Json) : List Json := if s.isOneOf Visit.safeTypes then s.writes else []

end Json

namespace Rewriting

/-- Statements with their records around them: `written` tells which records, `made` what became of
the statements. -/
def weave (written made : List Json) : List Json :=
  (written.zip made).flatMap fun p => p.1.declares ++ p.2 :: p.1.writesAfter

/-! ## Preparing a node -/

def blockOf (body : List Json) : Json := .obj [("type", .str "BlockStatement"), ("body", .arr body)]

/-- A statement as a block. -/
def asBlock (s : Json) : Json := if s.isNode && s.type? != some "BlockStatement" then blockOf [s] else s

/-- The body of a function as a block: an expression is returned. -/
def bodyBlock (body : Json) : Json :=
  if body.type? = some "BlockStatement" then body
  else blockOf [.obj [("type", .str "ReturnStatement"), ("argument", body), ("loc", body.field "loc")]]

/-- A field as its rule visits it. -/
def readyField (type key : String) (v : Json) : Json :=
  if type = "IfStatement" ∧ key ∈ ["consequent", "alternate"] then asBlock v
  else if type ∈ "ForStatement" :: loopTypes ∧ key = "body" then asBlock v
  else if type ∈ functionTypes ∧ key = "body" then bodyBlock v
  else v

/-- The fields of a node that is worked on: a `return` has an argument, and a function whose body was an
expression is no longer marked as one. -/
def completed (type : String) (fields : Fields Json) : Fields Json :=
  if type = "ReturnStatement" ∧ Fields.get? "argument" fields = none then fields ++ [("argument", .null)]
  else if type ∈ functionTypes ∧ (Json.field "body" (.obj fields)).type? ≠ some "BlockStatement" then
    Fields.set "expression" (.bool false) fields
  else fields

/-- A node before its fields are visited: it is complete, and branches and bodies are blocks. -/
def prepared (type : String) (fields : Fields Json) : Fields Json :=
  (completed type fields).map fun f => (f.1, readyField type f.1 f.2)

/-! ## Frames -/

/-- What is put around a field once it is rewritten. -/
inductive FrameKind where
  | same | result | test | callee | arguments | iteration | init | update | counted | function
  deriving DecidableEq

/-- The fields that are framed. -/
def frameTable : List (List String × List (String × FrameKind)) :=
  [(["ReturnStatement"], [("argument", .result)]),
    (["IfStatement"], [("test", .test)]),
    (["CallExpression"], [("callee", .callee), ("arguments", .arguments)]),
    (loopTypes, [("body", .iteration)]),
    (["ForStatement"], [("init", .init), ("update", .update), ("body", .counted)]),
    (functionTypes, [("body", .function)])]

def frameKind (type key : String) : FrameKind :=
  (Fields.get? key ((ofGroup type frameTable).getD [])).getD .same

/-- A call of the runtime around an expression. -/
def wrapped (name : String) (arguments : List Json) (e : Json) : Json := .callOf name (arguments ++ [e])

def sequenceOf (e probe : Json) : Json :=
  .obj [("type", .str "SequenceExpression"), ("expressions", .arr [e, probe])]

def arrayOf (elements : Json) : Json := .obj [("type", .str "ArrayExpression"), ("elements", elements)]

/-- A node with a function applied to the list under a key. -/
def onList (key : String) (f : List Json → List Json) (node : Json) : Json :=
  match node with
  | .obj fields =>
    match Fields.get? key fields with
    | some (.arr items) => .obj (Fields.set key (.arr (f items)) fields)
    | _ => node
  | _ => node

/-- The `try` around the statements of a function. -/
def guarded (statements : List Json) (line name : Json) : Json :=
  .obj [("type", .str "TryStatement"), ("block", blockOf statements), ("handler", Probe.handler line name),
    ("finalizer", .null)]

/-- Whether a statement is a directive. -/
def isDirective (s : Json) : Bool := (s.field "directive").truthy

/-- Statements that record a return at their end, unless they end with one. -/
def closed (statements : List Json) (endLine : Json) : List Json :=
  if (statements.getLast?.bind Json.type?) = some "ReturnStatement" then statements
  else statements ++ [Probe.returned endLine]

/-- The body of a function: its directives, the record of the call, and the guarded rest. -/
def functionBody (line endLine name : Json) (params statements : List Json) : List Json :=
  statements.takeWhile isDirective ++
    [Probe.called line name params, guarded (closed (statements.dropWhile isDirective) endLine) endLine name]

/-- The names bound by the parameters of a function. -/
def parameterNames (fields : Fields Json) : Except Fault (List Json) :=
  match Fields.get? "params" fields with
  | some (.arr params) => allBindingNames params
  | _ => .ok []

/-- How a rewritten field is framed. The node as it was written, `fields`, gives lines, names and
targets; the text of a condition is taken from what has become of it, in `made`. -/
inductive Frame (code : Option String) (classes : List Json) (up : Option Json) (type : String)
    (fields made : Fields Json) : FrameKind → Json → Json → Prop
  | same (v : Json) : Frame code classes up type fields made .same v v
  | result (line v : Json) (hline : Node.line (.obj fields) = .ok line) :
    Frame code classes up type fields made .result v
      (wrapped returnName [.literal line] (if v.isNull then .voidZero else v))
  | test (line v : Json) (text : String) (hline : Node.line (.obj fields) = .ok line)
      (htext : Node.conditionText v code = .ok text) :
    Frame code classes up type fields made .test v
      (wrapped testName [.literal (.str text), .literal line] v)
  | printer (v : Json) (hconsole : Visit.isConsole (Json.field "callee" (.obj fields)) = .ok true) :
    Frame code classes up type fields made .callee v (.ident (.str printName))
  | callee (v : Json) (hconsole : Visit.isConsole (Json.field "callee" (.obj fields)) = .ok false) :
    Frame code classes up type fields made .callee v v
  | printed (line v : Json) (hconsole : Visit.isConsole (Json.field "callee" (.obj fields)) = .ok true)
      (hline : Node.line (.obj fields) = .ok line) :
    Frame code classes up type fields made .arguments v (.arr [.literal line, arrayOf v])
  | arguments (v : Json) (hconsole : Visit.isConsole (Json.field "callee" (.obj fields)) = .ok false) :
    Frame code classes up type fields made .arguments v v
  | iteration (line v : Json) (probes : List Json) (hline : Node.line (.obj fields) = .ok line)
      (hprobes : Visit.iterationProbes line (Json.field "left" (.obj fields)) = .ok probes) :
    Frame code classes up type fields made .iteration v
      (onList "body" (Probe.statement "loop" line [("loopType", .literal (.str (Visit.loopTag type)))] :: probes ++ ·) v)
  | noInit (v : Json) (h : (Json.field "init" (.obj fields)).isNode = false) :
    Frame code classes up type fields made .init v v
  | initNothing (v : Json) (h : (Json.field "init" (.obj fields)).type? = some "VariableDeclaration")
      (hnames : Visit.declaredNames (Json.field "init" (.obj fields)) = .ok []) :
    Frame code classes up type fields made .init v v
  | initDeclared (line v : Json) (n : Nat) (names : List Json) (hline : Node.line (.obj fields) = .ok line)
      (h : (Json.field "init" (.obj fields)).type? = some "VariableDeclaration")
      (hnames : Visit.declaredNames (Json.field "init" (.obj fields)) = .ok names) (hne : names ≠ []) :
    Frame code classes up type fields made .init v
      (onList "declarations" (· ++ [Probe.initDeclarator n (names.map fun x => Probe.locals "declare" line [.named x])]) v)
  | initAssigned (line v : Json) (targets : List Target) (hline : Node.line (.obj fields) = .ok line)
      (h : (Json.field "init" (.obj fields)).type? ≠ some "VariableDeclaration")
      (htargets : writtenTargets (Json.field "init" (.obj fields)) = .ok targets) (hne : targets ≠ []) :
    Frame code classes up type fields made .init v (sequenceOf v (Probe.locals "assign" line targets))
  | initShown (line v : Json) (text : String) (hline : Node.line (.obj fields) = .ok line)
      (h : (Json.field "init" (.obj fields)).type? ≠ some "VariableDeclaration")
      (htargets : writtenTargets (Json.field "init" (.obj fields)) = .ok [])
      (htext : Node.conditionText v code = .ok text) :
    Frame code classes up type fields made .init v
      (sequenceOf v (Probe.record "init" line [("expression", .literal (.str text))]))
  | noUpdate (v : Json) (h : (Json.field "update" (.obj fields)).isNode = false) :
    Frame code classes up type fields made .update v v
  | updateNothing (v : Json) (h : writtenTargets (Json.field "update" (.obj fields)) = .ok []) :
    Frame code classes up type fields made .update v v
  | updated (line v : Json) (targets : List Target) (hline : Node.line (.obj fields) = .ok line)
      (htargets : writtenTargets (Json.field "update" (.obj fields)) = .ok targets) (hne : targets ≠ []) :
    Frame code classes up type fields made .update v (sequenceOf v (Probe.locals "assign" line targets))
  | uncounted (v : Json) (h : (Json.field "test" (.obj fields)).isNode = false) :
    Frame code classes up type fields made .counted v v
  | counted (line v : Json) (text : String) (hline : Node.line (.obj fields) = .ok line)
      (h : (Json.field "test" (.obj fields)).isNode = true)
      (htext : Node.conditionText (Json.field "test" (.obj made)) code = .ok text) :
    Frame code classes up type fields made .counted v
      (onList "body" (Probe.statement "test" line [("expression", .literal (.str text)), ("result", .literal (.bool true))] :: ·) v)
  | function (line endLine name v : Json) (params : List Json) (hline : Node.line (.obj fields) = .ok line)
      (hend : Node.endLine (.obj fields) = .ok endLine) (hname : functionName classes (.obj fields) up = .ok name)
      (hparams : parameterNames fields = .ok params) :
    Frame code classes up type fields made .function v (onList "body" (functionBody line endLine name params) v)

/-- The name of a class: its own, or the one a class expression is given by the node around. -/
def className (classes : List Json) (up : Option Json) (type : String) (fields : Fields Json) : Except Fault Json :=
  if type = "ClassDeclaration" then
    let id := Json.field "id" (.obj fields)
    if id.truthy then (layer id).require "name" else .ok (.str "AnonymousClass")
  else functionName classes (.obj fields) up

/-- The enclosing classes, as seen from a field of a node. -/
def classesAt (classes : List Json) (type key : String) (name : Json) : List Json :=
  if type ∈ classTypes ∧ key = "body" then name :: classes else classes

/-- How a field is worked on. -/
inductive Mode where
  | kept | visited | statements
  deriving DecidableEq

def mode (type : String) (fields : Fields Json) (key : String) : Mode :=
  if (type, key) ∈ [("Program", "body"), ("BlockStatement", "body"), ("SwitchCase", "consequent")] then .statements
  else match visitedFields type fields with
    | some keys => if key ∈ keys then .visited else .kept
    | none => if key = "loc" ∨ key = "range" then .kept else .visited

end Rewriting

open Rewriting

/-- What instrumenting makes of a value, inside the classes named and below the node `up`. -/
inductive Rewrites (code : Option String) : Mode → List Json → Option Json → Json → Json → Prop
  | kept (classes : List Json) (up : Option Json) (v : Json) : Rewrites code .kept classes up v v
  /-- A value that is neither a node nor a list. -/
  | value (classes : List Json) (up : Option Json) (v : Json) (hnode : v.isNode = false)
      (hlist : ∀ items, v ≠ .arr items) : Rewrites code .visited classes up v v
  /-- The nodes in a list. -/
  | items (classes : List Json) (up : Option Json) (vs ws : List Json) (hlen : vs.length = ws.length)
      (h : ∀ p ∈ vs.zip ws, p.1.isNode = true → Rewrites code .visited classes up p.1 p.2)
      (hother : ∀ p ∈ vs.zip ws, p.1.isNode = false → p.2 = p.1) :
    Rewrites code .visited classes up (.arr vs) (.arr ws)
  /-- Statements, each between its records. -/
  | statements (classes : List Json) (up : Option Json) (ss ts : List Json) (hlen : ss.length = ts.length)
      (h : ∀ p ∈ ss.zip ts, p.1.isNode = true → Rewrites code .visited classes none p.1 p.2)
      (hother : ∀ p ∈ ss.zip ts, p.1.isNode = false → p.2 = p.1) :
    Rewrites code .statements classes up (.arr ss) (.arr (weave ss ts))
  | node (classes : List Json) (up : Option Json) (type : String) (name : Json) (fields made out : Fields Json)
      (htype : Fields.type? fields = some type) (hproper : (Json.obj fields).Proper)
      (hname : type ∈ classTypes → className classes up type fields = .ok name)
      (hmade : Fields.names made = Fields.names (prepared type fields))
      (h : ∀ key v w, Fields.get? key (prepared type fields) = some v → Fields.get? key made = some w →
        Rewrites code (mode type fields key) (classesAt classes type key name) (some (.obj fields)) v w)
      (hout : Fields.names out = Fields.names made)
      (hframe : ∀ key w o, Fields.get? key made = some w → Fields.get? key out = some o →
        Frame code classes up type fields made (frameKind type key) w o) :
    Rewrites code .visited classes up (.obj fields) (.obj out)

end ScriptTrace
