import ScriptTrace.Syntax.Printer.Expression

/-!
# Printing statements

`Printable.statementOf` gives the text of a statement node of each type, without the indentation of
its first line. `printNode` prints a whole tree.
-/

namespace ScriptTrace

namespace Printable

/-- Starts that an expression statement must not have. -/
def ambiguousStarts : List String := ["\x7b", "function", "class", "let [", "async function"]

/-- Whether the text of an expression would be read as something else at the start of a statement. -/
def startsAmbiguously (text : String) : Bool := ambiguousStarts.any (startsWith · text)

/-- A directive: its raw text, or the literal of its content. -/
def directive (l : Layer Printable) (content : Printable) : Except Fault String := do
  match ← (layer (← l.require "expression")).optional "raw" with
  | some raw =>
    if (layer raw).truthy then return (← asText raw.source) ++ ";"
    else return literalText content.source ++ ";"
  | none => return literalText content.source ++ ";"

def expressionStatement (place : Place) (l : Layer Printable) : Except Fault String := do
  match (← l.optional "directive").filter fun d => (layer d).truthy with
  | some content => directive l content
  | none =>
    match ← (← l.require "expression").expression place .sequence with
    | .str text => return (if startsAmbiguously text then "(" ++ text ++ ")" else text) ++ ";"
    | _ => .error .unsupported

/-- A jump with an optional label. -/
def jump (word : String) (l : Layer Printable) : Except Fault String := do
  match (← l.optional "label").filter fun d => (layer d).truthy with
  | some label => return word ++ " " ++ (← textOf "name" (layer label)) ++ ";"
  | none => return word ++ ";"

/-- A branch. Where an `else` follows, a consequent that is itself a branch is put in braces. -/
def branch (place : Place) (l : Layer Printable) : Except Fault String := do
  let consequent ← l.require "consequent"
  match ← l.optional "alternate" with
  | none =>
    let test ← (← l.require "test").expressionText place .sequence
    return "if (" ++ test ++ ")" ++ (← nested place consequent)
  | some alternate =>
    let wrapped ← (layer consequent).hasType "IfStatement"
    let test ← (← l.require "test").expressionText place .sequence
    let yes ← if wrapped then pure (" " ++ (← inBraces place [consequent])) else nested place consequent
    let gap := if wrapped || (← (layer consequent).hasType "BlockStatement") then " " else "\n" ++ place.pad
    let no ←
      if ← (layer alternate).hasType "IfStatement" then pure (" " ++ (← alternate.statement place))
      else nested place alternate
    return "if (" ++ test ++ ")" ++ yes ++ gap ++ "else" ++ no

/-- The first part of a counted loop's head, as text that is still to be joined. -/
def loopInit (place : Place) (l : Layer Printable) : Except Fault Json := do
  match ← l.optional "init" with
  | none => return .str ""
  | some init =>
    if ← (layer init).hasType "VariableDeclaration" then return .str (← declaration place (layer init))
    else init.expression place .sequence

/-- An optional expression, as text that is still to be joined. -/
def optionalExpression (place : Place) (key : String) (l : Layer Printable) : Except Fault Json := do
  match ← l.optional key with
  | none => return .str ""
  | some e => e.expression place .sequence

def countedLoop (place : Place) (l : Layer Printable) : Except Fault String := do
  let init ← loopInit place.head l
  let test ← optionalExpression place "test" l
  let update ← optionalExpression place "update" l
  let head := "for (" ++ (← asText init) ++ "; " ++ (← asText test) ++ "; " ++ (← asText update) ++ ")"
  return head ++ (← nested place (← l.require "body"))

/-- The left side of a loop over items or names. -/
def loopTarget (place : Place) (p : Printable) : Except Fault String := do
  if ← (layer p).hasType "VariableDeclaration" then declaration place (layer p)
  else p.expressionText place .call

/-- A loop over items or names. -/
def eachLoop (word : String) (required : Precedence) (place : Place) (l : Layer Printable) :
    Except Fault String := do
  let target ← loopTarget place (← l.require "left")
  let source ← (← l.require "right").expressionText place required
  return "for (" ++ target ++ word ++ source ++ ")" ++ (← nested place (← l.require "body"))

def whileLoop (place : Place) (l : Layer Printable) : Except Fault String := do
  let test ← (← l.require "test").expressionText place .sequence
  return "while (" ++ test ++ ")" ++ (← nested place (← l.require "body"))

def doLoop (place : Place) (l : Layer Printable) : Except Fault String := do
  let body ← l.require "body"
  let text ← nested place body
  let gap := if ← (layer body).hasType "BlockStatement" then " " else "\n" ++ place.pad
  let test ← (← l.require "test").expressionText place .sequence
  return "do" ++ text ++ gap ++ "while (" ++ test ++ ");"

/-- The handler of a `try`. -/
def handler (place : Place) (l : Layer Printable) : Except Fault String := do
  let param ← match ← l.optional "param" with
    | some param => pure (" (" ++ (← param.expressionText place .assign) ++ ")")
    | none => pure ""
  return " catch" ++ param ++ " " ++ (← body place l)

def tryStatement (place : Place) (l : Layer Printable) : Except Fault String := do
  let guarded ← block place (layer (← l.require "block"))
  let caught ← match ← l.optional "handler" with
    | some h => handler place (layer h)
    | none => pure ""
  let finalizer ← match ← l.optional "finalizer" with
    | some f => pure (" finally " ++ (← block place (layer f)))
    | none => pure ""
  return "try " ++ guarded ++ caught ++ finalizer

/-- One case of a `switch`, its statements a level deeper than its label. -/
def switchCase (place : Place) (p : Printable) : Except Fault String := do
  let label ← match ← (layer p).optional "test" with
    | none => pure "default:"
    | some test => pure ("case " ++ (← test.expressionText place .sequence) ++ ":")
  let statements ← (← (layer p).elementsOf "consequent").mapM fun s =>
    return "\n" ++ place.deeper.pad ++ (← s.statement place.deeper)
  return "\n" ++ place.pad ++ label ++ String.join statements

def switchStatement (place : Place) (l : Layer Printable) : Except Fault String := do
  let discriminant ← (← l.require "discriminant").expressionText place .sequence
  let cases ← (← l.elementsOf "cases").mapM (switchCase place.deeper)
  return "switch (" ++ discriminant ++ ") \x7b" ++ String.join cases ++ "\n" ++ place.pad ++ "\x7d"

/-- The text of a statement of a type. -/
def statementOf (type : String) (place : Place) (l : Layer Printable) : Except Fault String :=
  match type with
  | "BlockStatement" => block place l
  | "EmptyStatement" => return ";"
  | "DebuggerStatement" => return "debugger;"
  | "ExpressionStatement" => expressionStatement place l
  | "VariableDeclaration" => return (← declaration place l) ++ ";"
  | "FunctionDeclaration" => function place l
  | "ClassDeclaration" => classText place l
  | "ReturnStatement" => do
    match ← l.optional "argument" with
    | none => return "return;"
    | some argument => return "return " ++ (← argument.expressionText place .sequence) ++ ";"
  | "ThrowStatement" =>
    return "throw " ++ (← (← l.require "argument").expressionText place .sequence) ++ ";"
  | "BreakStatement" => jump "break" l
  | "ContinueStatement" => jump "continue" l
  | "LabeledStatement" => do
    let label ← nameOf "label" l
    return label ++ ": " ++ (← (← l.require "body").statement place)
  | "IfStatement" => branch place l
  | "ForStatement" => countedLoop place l
  | "ForInStatement" => eachLoop " in " .sequence place l
  | "ForOfStatement" => eachLoop " of " .assign place l
  | "WhileStatement" => whileLoop place l
  | "DoWhileStatement" => doLoop place l
  | "TryStatement" => tryStatement place l
  | "SwitchStatement" => switchStatement place l
  | _ => .error (.unprintable .statement type)

/-- Whether a chain of members, calls and tagged templates holds a call. -/
def chainHasCall (l : Layer Printable) : Except Fault Bool := do
  if !l.truthy then return false else
  if !(← l.hasTypeIn ["MemberExpression", "CallExpression", "TaggedTemplateExpression"]) then
    return false
  else if ← l.hasType "CallExpression" then return true
  else
    match (← l.optional "object").filter fun o => (layer o).truthy with
    | some object => object.callInside
    | none =>
      match ← l.optional "tag" with
      | some tag => tag.callInside
      | none => return false

/-- The forms of a value: those of its type for a node. -/
def forms (l : Layer Printable) : Forms :=
  match l with
  | .obj _ => {
    callInside := chainHasCall l
    statement := fun place => do statementOf (← textOf "type" l) place l
    fragment := fun place => do fragmentOf (← textOf "type" l) place l }
  | _ => .none l.truthy

end Printable

/-- The text of a program, a statement or an expression. A lone name or literal is answered as it
stands in the tree, also when it is no string. -/
def printNode (j : Json) : Except Fault Json := do
  let p : Printable := j.annotate Printable.forms
  match (← (layer p).require "type").source with
  | .str "Program" => do
    let lines ← (← (layer p).elementsOf "body").mapM (Printable.statement .top)
    return .str ("\n".intercalate lines)
  | .str type =>
    if endsWith "Statement" type || endsWith "Declaration" type then return .str (← p.statement .top)
    else p.expression .top .sequence
  | _ => .error .unsupported

end ScriptTrace
