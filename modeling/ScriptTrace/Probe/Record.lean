import ScriptTrace.Probe.Tree
import ScriptTrace.Syntax.Binding

/-!
# Probes

A probe is a call into the probe runtime that records an event. Probes are plain JSON; `Tree.ofProbe`
puts them into a tree.

* `Probe.record` : the call that records an event of a kind, with its line and further fields;
* `Probe.locals` : a record with snapshots of variables;
* `Probe.result`, `Probe.test`, `Probe.print` : wrappers around user expressions;
* `Probe.guard` : the `try` that records an exception leaving a function.
-/

namespace ScriptTrace

namespace Probe

/-- Names of the runtime's functions. -/
def recordName : String := "__record"
def snapshotName : String := "__snapshot"
def returnName : String := "__return"
def testName : String := "__test"
def printName : String := "__print"

/-- The parameter of the handler around a function body. -/
def caughtName : String := "__probe_error"

/-- The variable that carries the probes of a counted loop's initializer. -/
def initName (n : Nat) : String := "__probe_init_" ++ toString n

/-- The snapshot of an expression's value. -/
def snapshot (expression : Json) : Json := .callOf snapshotName [expression]

/-- The call that records an event. -/
def record (kind : String) (line : Json) (fields : List (String × Json)) : Json :=
  let pairs := (.str "kind", .literal (.str kind)) :: (.str "line", .literal line) ::
    fields.map fun (k, v) => (.str k, v)
  .callOf recordName [.objectOf pairs]

/-- A record as a statement of its own. -/
def statement (kind : String) (line : Json) (fields : List (String × Json)) : Json :=
  .expressionStatement (record kind line fields)

/-- The record of what variables hold. -/
def locals (kind : String) (line : Json) (targets : List Target) : Json :=
  let pairs := targets.map fun t => (t.key, snapshot t.expression)
  record kind line [("locals", .objectOf pairs)]

/-- The record of what variables hold, as a statement. -/
def localsStatement (kind : String) (line : Json) (targets : List Target) : Json :=
  .expressionStatement (locals kind line targets)

/-! ## Records of functions and classes -/

/-- The record at the start of a call, with snapshots of the parameters. -/
def called (line name : Json) (params : List Json) : Json :=
  let args := params.map fun p => (p, snapshot (.ident p))
  statement "call" line [("name", .literal name), ("args", .objectOf args)]

/-- The record of a function left at its end. -/
def returned (line : Json) : Json := statement "return" line [("value", snapshot .voidZero)]

/-- The record of a function left by an exception. -/
def thrown (line name : Json) : Json := statement "throw" line [("name", .literal name)]

/-- The record of a class declaration. -/
def declared (line name : Json) : Json := statement "class" line [("className", .literal name)]

/-- The handler that records an exception and throws it again. -/
def handler (line name : Json) : Json :=
  let caught : Json := .ident (.str caughtName)
  let rethrow : Json := .obj [("type", .str "ThrowStatement"), ("argument", caught)]
  .obj [("type", .str "CatchClause"), ("param", caught),
    ("body", .obj [("type", .str "BlockStatement"), ("body", .arr [thrown line name, rethrow])])]

/-! ## Trees around user code -/

/-- A node that needs no probes itself, but may hold parts that do. -/
def node (type : String) (fields : List (String × Tree)) : Tree :=
  .obj true (("type", .str type) :: fields)

/-- A call whose last argument is user code. -/
def around (name : String) (arguments : List Json) (user : Tree) : Tree :=
  node "CallExpression" [("callee", .ofProbe (.ident (.str name))),
    ("arguments", .arr (arguments.map .ofProbe ++ [user]))]

/-- The value of a `return`, recorded. -/
def result (line : Json) (value : Tree) : Tree := around returnName [.literal line] value

/-- A condition, recorded with its text. -/
def test (text line : Json) (condition : Tree) : Tree :=
  around testName [.literal text, .literal line] condition

/-- A sequence of user code and a probe. -/
def followed (user : Tree) (probe : Json) : Tree :=
  node "SequenceExpression" [("expressions", .arr [user, .ofProbe probe])]

/-- The statements of a function body, guarded so that an exception is recorded. -/
def guard (statements : List Tree) (line name : Json) : Tree :=
  node "TryStatement" [("block", node "BlockStatement" [("body", .arr statements)]),
    ("handler", .ofProbe (handler line name)), ("finalizer", .null)]

/-- A block of user code. -/
def block (statements : List Tree) : Tree :=
  .obj false [("type", .str "BlockStatement"), ("body", .arr statements)]

/-- The declarator that runs probes when a counted loop starts. -/
def initDeclarator (n : Nat) (probes : List Json) : Json :=
  let init := match probes with
    | [probe] => probe
    | probes => .obj [("type", .str "SequenceExpression"), ("expressions", .arr probes)]
  .obj [("type", .str "VariableDeclarator"), ("id", .ident (.str (initName n))), ("init", init)]

end Probe

end ScriptTrace
