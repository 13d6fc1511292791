import ScriptTrace.Syntax.Printer.Printable

/-!
# Blocks, declarations, functions and classes

The parts that statements and expressions have in common.
-/

namespace ScriptTrace

namespace Printable

/-- Statements in braces, one a line. -/
def inBraces (place : Place) (statements : List Printable) : Except Fault String := do
  let lines ← statements.mapM fun s => return place.deeper.pad ++ (← s.statement place.deeper)
  return "\x7b\n" ++ "\n".intercalate lines ++ "\n" ++ place.pad ++ "\x7d"

/-- The statements of a block in braces. -/
def block (place : Place) (l : Layer Printable) : Except Fault String := do
  match ← l.optional "body" with
  | none => return "\x7b\x7d"
  | some body =>
    if (layer body).truthy then inBraces place (← (layer body).elements) else return "\x7b\x7d"

/-- A statement after a header: a block on the same line, others indented on the next. -/
def nested (place : Place) (p : Printable) : Except Fault String := do
  if ← (layer p).hasType "BlockStatement" then return " " ++ (← block place (layer p))
  else return "\n" ++ place.deeper.pad ++ (← p.statement place.deeper)

/-- One declared name or pattern with its initial value. -/
def declarator (place : Place) (p : Printable) : Except Fault Json := do
  let target ← (← (layer p).require "id").expression place .assign
  match ← (layer p).optional "init" with
  | none => return target
  | some value =>
    let value ← value.expressionText place .assign
    return .str ((← asText target) ++ " = " ++ value)

/-- A declaration without the semicolon. -/
def declaration (place : Place) (l : Layer Printable) : Except Fault String := do
  let parts ← (← (layer (← l.require "declarations")).elements).mapM (declarator place)
  let kind ← textOf "kind" l
  return kind ++ " " ++ (← joined parts)

/-- The parameters of a function in parentheses. -/
def params (place : Place) (l : Layer Printable) : Except Fault String := do
  let parts ← (← l.elementsOf "params").mapM (·.expression place .assign)
  return "(" ++ (← joined parts) ++ ")"

/-- The body of a function, always a block. -/
def body (place : Place) (l : Layer Printable) : Except Fault String := do
  block place (layer (← l.require "body"))

/-- A function declaration or expression. -/
def function (place : Place) (l : Layer Printable) : Except Fault String := do
  let async := if ← l.flag "async" then "async " else ""
  let star := if ← l.flag "generator" then "*" else ""
  let name ← match ← l.optional "id" with
    | some id => pure (" " ++ (← textOf "name" (layer id)))
    | none => pure ""
  let params ← params place l
  return async ++ "function" ++ star ++ name ++ params ++ " " ++ (← body place l)

/-- The key of a property or method; a computed one in brackets. -/
def propertyKey (place : Place) (l : Layer Printable) : Except Fault Json := do
  if ← l.flag "computed" then
    return .str ("[" ++ (← (← l.require "key").expressionText place .assign) ++ "]")
  else (← l.require "key").expression place .primary

/-- Whether a property is a getter or a setter. -/
def accessor? (l : Layer Printable) : Except Fault (Option String) := do
  match (← l.optional "kind").map Annotated.source with
  | some (.str "get") => return some "get"
  | some (.str "set") => return some "set"
  | _ => return none

/-- A method with its key. -/
def method (place : Place) (l : Layer Printable) (key : Json) : Except Fault String := do
  let value := layer (← l.require "value")
  let before ← match ← accessor? l with
    | some kind => pure (kind ++ " ")
    | none => do
      let async := if ← value.flag "async" then "async " else ""
      let star := if ← value.flag "generator" then "*" else ""
      pure (async ++ star)
  let key ← asText key
  let params ← params place value
  return before ++ key ++ params ++ " " ++ (← body place value)

/-- One member of a class, on a line of its own. -/
def member (place : Place) (p : Printable) : Except Fault String := do
  let static := if ← (layer p).flag "static" then "static " else ""
  let key ← propertyKey place (layer p)
  return place.pad ++ static ++ (← method place (layer p) key)

/-- A class declaration or expression. -/
def classText (place : Place) (l : Layer Printable) : Except Fault String := do
  let name ← match ← l.optional "id" with
    | some id => pure (" " ++ (← textOf "name" (layer id)))
    | none => pure ""
  let base ← match ← l.optional "superClass" with
    | some base => pure (" extends " ++ (← base.expressionText place .call))
    | none => pure ""
  let members ← (layer (← l.require "body")).elementsOf "body"
  if members.isEmpty then return "class" ++ name ++ base ++ " \x7b\x7d" else
  let lines ← members.mapM (member place.deeper)
  return "class" ++ name ++ base ++ " \x7b\n" ++ "\n".intercalate lines ++ "\n" ++ place.pad ++ "\x7d"

end Printable

end ScriptTrace
