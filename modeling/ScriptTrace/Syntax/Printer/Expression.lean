import ScriptTrace.Syntax.Literal
import ScriptTrace.Syntax.Printer.Parts
import ScriptTrace.Text.Affix
import ScriptTrace.Text.Digit
import ScriptTrace.Text.Letter

/-!
# Printing expressions

`Printable.fragmentOf` gives the text and the precedence of an expression node of each type. Operands
are printed from left to right.
-/

namespace ScriptTrace

namespace Printable

def fragmentWith (precedence : Precedence) (text : String) : Fragment := ⟨.str text, precedence⟩

/-- A literal: its raw text, or one made from its value. -/
def literal (l : Layer Printable) : Except Fault Json := do
  match ← l.optional "raw" with
  | some raw => return raw.source
  | none => return .str (literalText (((← l.optional "value").map Annotated.source).getD .null))

/-- The `i`-th of the expressions of a template. -/
def templateItem (i : Nat) : Layer Printable → Except Fault (Option Printable)
  | .obj fields => if i < fields.length then .error (.missing (.int i)) else .ok none
  | l => return (← l.elements)[i]?

/-- The text parts of a template from the `i`-th on, each followed by its expression. -/
def templateParts (place : Place) (expressions : Layer Printable) :
    Nat → List Printable → Except Fault String
  | _, [] => .ok ""
  | i, quasi :: rest => do
    let raw ← textOf "raw" (layer (← (layer quasi).require "value"))
    let inner ← match ← templateItem i expressions with
      | some e => pure ("$\x7b" ++ (← e.expressionText place .sequence) ++ "\x7d")
      | none => pure ""
    return raw ++ inner ++ (← templateParts place expressions (i + 1) rest)

/-- A template with its back quotes. -/
def template (place : Place) (l : Layer Printable) : Except Fault String := do
  let quasis ← l.elementsOf "quasis"
  let expressions := match ← l.optional "expressions" with
    | some e => if (layer e).truthy then layer e else .arr []
    | none => .arr []
  return "\x60" ++ (← templateParts place expressions 0 quasis) ++ "\x60"

/-- An array or array pattern; a hole at the end needs a comma of its own. -/
def array (place : Place) (l : Layer Printable) : Except Fault String := do
  let items ← (← l.elementsOf "elements").mapM fun e =>
    if (layer e).isNull then .ok (.str "") else e.expression place .assign
  let text ← joined items
  match items.getLast? with
  | some (.str "") => return "[" ++ text ++ ",]"
  | _ => return "[" ++ text ++ "]"

/-- One member of an object or object pattern. -/
def objectMember (place : Place) (p : Printable) : Except Fault Json := do
  let l := layer p
  if ← l.hasTypeIn ["SpreadElement", "RestElement"] then p.expression place .assign else
  let key ← propertyKey place l
  if (← accessor? l).isSome || (← l.flag "method") then return .str (← method place l key)
  else if ← l.flag "shorthand" then (← l.require "value").expression place .assign
  else
    let key ← asText key
    return .str (key ++ ": " ++ (← (← l.require "value").expressionText place .assign))

/-- An object or object pattern. -/
def object (place : Place) (l : Layer Printable) : Except Fault String := do
  let members ← l.elementsOf "properties"
  return "\x7b" ++ (← joined (← members.mapM (objectMember place))) ++ "\x7d"

/-- An arrow function; a body that would be read as a block is put in parentheses. -/
def arrow (place : Place) (l : Layer Printable) : Except Fault String := do
  let async := if ← l.flag "async" then "async " else ""
  let params ← params place l
  let body ← l.require "body"
  if ← (layer body).hasType "BlockStatement" then
    return async ++ params ++ " => " ++ (← block place (layer body))
  else
    match ← body.expression place .assign with
    | .str text =>
      let text := if startsWith "\x7b" text then "(" ++ text ++ ")" else text
      return async ++ params ++ " => " ++ text
    | _ => .error .unsupported

def spread (place : Place) (l : Layer Printable) : Except Fault String := do
  return "..." ++ (← (← l.require "argument").expressionText place .assign)

/-- A pattern with a default value. -/
def defaulted (place : Place) (l : Layer Printable) : Except Fault String := do
  let left ← (← l.require "left").expressionText place .call
  return left ++ " = " ++ (← (← l.require "right").expressionText place .assign)

def assignment (place : Place) (l : Layer Printable) : Except Fault String := do
  let left ← l.require "left"
  let required : Precedence :=
    if ← (layer left).hasTypeIn ["ObjectPattern", "ArrayPattern"] then .primary else .call
  let target ← left.expressionText place required
  let operator ← textOf "operator" l
  return target ++ " " ++ operator ++ " " ++ (← (← l.require "right").expressionText place .assign)

def sequence (place : Place) (l : Layer Printable) : Except Fault String := do
  let items ← (layer (← l.require "expressions")).elements
  joined (← items.mapM (·.expression place .assign))

def conditional (place : Place) (l : Layer Printable) : Except Fault String := do
  let test ← (← l.require "test").expressionText place (Precedence.conditional + 1)
  let yes ← (← l.require "consequent").expressionText place .assign
  return test ++ " ? " ++ yes ++ " : " ++ (← (← l.require "alternate").expressionText place .assign)

/-- The precedence of an operator; an unknown one is a missing key, one that cannot be a key is of the
wrong kind. -/
def operatorPrecedence : Json → Except Fault Precedence
  | .arr _ | .obj _ => .error .wrongKind
  | .str s =>
    match Precedence.binary? s with
    | some p => .ok p
    | none => .error (.missing (.str s))
  | j => .error (.missing j)

/-- A binary or logical expression. Only `**` groups to the right. -/
def binary (place : Place) (l : Layer Printable) : Except Fault Fragment := do
  let operator := (← l.require "operator").source
  let precedence ← operatorPrecedence operator
  let power := operator.string? == some "**"
  let left ← (← l.require "left").expression place (if power then .postfixOp else precedence)
  let right ← (← l.require "right").expression place (if power then precedence else precedence + 1)
  let operator ← asText operator
  let text := (← asText left) ++ " " ++ operator ++ " " ++ (← asText right)
  if operator == "in" && place.inHead then return fragmentWith .primary ("(" ++ text ++ ")")
  else return fragmentWith precedence text

/-- A unary expression; a space keeps words and equal signs apart. -/
def unary (place : Place) (l : Layer Printable) : Except Fault String := do
  let operator := (← l.require "operator").source
  let argument ← (← l.require "argument").expression place .unary
  match operator with
  | .str sign =>
    let argument ← asText argument
    let isWord := sign != "" && sign.toList.all isLetter
    if isWord || String.ofList (argument.toList.take 1) == sign then return sign ++ " " ++ argument
    else return sign ++ argument
  | _ => .error .unsupported

def yield (place : Place) (l : Layer Printable) : Except Fault String := do
  let word := if ← l.flag "delegate" then "yield*" else "yield"
  match ← l.optional "argument" with
  | some argument => return word ++ " " ++ (← argument.expressionText place .assign)
  | none => return word

def update (place : Place) (l : Layer Printable) : Except Fault Fragment := do
  let argument ← (← l.require "argument").expression place .postfixOp
  let before ← l.flag "prefix"
  let operator := (← l.require "operator").source
  let operator ← asText operator
  let argument ← asText argument
  if before then return fragmentWith .unary (operator ++ argument)
  else return fragmentWith .postfixOp (argument ++ operator)

/-- The arguments of a call in parentheses. -/
def arguments (place : Place) (l : Layer Printable) : Except Fault String := do
  let parts ← (← l.elementsOf "arguments").mapM (·.expression place .assign)
  return "(" ++ (← joined parts) ++ ")"

def call (place : Place) (l : Layer Printable) : Except Fault String := do
  let callee ← (← l.require "callee").expression place .call
  let arguments ← arguments place l
  return (← asText callee) ++ arguments

/-- A constructor call; a call inside the constructor's name is kept in parentheses. -/
def construct (place : Place) (l : Layer Printable) : Except Fault String := do
  let callee ← l.require "callee"
  let callee ←
    if ← callee.callInside then pure ("(" ++ (← callee.expressionText place .sequence) ++ ")")
    else callee.expressionText place .member
  return "new " ++ callee ++ (← arguments place l)

/-- Whether the object of a member expression is a number whose text would swallow the point. -/
def isBareNumber (l : Layer Printable) (text : Json) : Except Fault Bool := do
  if !(← l.hasType "Literal") then return false else
  match (← l.optional "value").map Annotated.source with
  | some (.int _) | some (.float _) =>
    match text with
    | .str s => return (s.toList.head?.map isDigit).getD false
    | .arr _ => .error .unsupported
    | _ => .error .wrongKind
  | _ => return false

def memberAccess (place : Place) (l : Layer Printable) : Except Fault String := do
  let object ← l.require "object"
  let text ← object.expression place .call
  let bare ← isBareNumber (layer object) text
  let text ← asText text
  let text := if bare then "(" ++ text ++ ")" else text
  if ← l.flag "computed" then
    return text ++ "[" ++ (← (← l.require "property").expressionText place .sequence) ++ "]"
  else return text ++ "." ++ (← nameOf "property" l)

/-- The text and precedence of an expression of a type. -/
def fragmentOf (type : String) (place : Place) (l : Layer Printable) : Except Fault Fragment :=
  match type with
  | "Identifier" => return ⟨(← l.require "name").source, .primary⟩
  | "ThisExpression" => return fragmentWith .primary "this"
  | "Super" => return fragmentWith .primary "super"
  | "MetaProperty" => do
    let object ← nameOf "meta" l
    return fragmentWith .primary (object ++ "." ++ (← nameOf "property" l))
  | "Literal" => return ⟨← literal l, .primary⟩
  | "TemplateLiteral" => return fragmentWith .primary (← template place l)
  | "TaggedTemplateExpression" => do
    let tag ← (← l.require "tag").expression place .member
    let quasi ← template place (layer (← l.require "quasi"))
    return fragmentWith .member ((← asText tag) ++ quasi)
  | "ArrayExpression" | "ArrayPattern" => return fragmentWith .primary (← array place l)
  | "ObjectExpression" | "ObjectPattern" => return fragmentWith .primary (← object place l)
  | "FunctionExpression" => return fragmentWith .primary (← function place l)
  | "ClassExpression" => return fragmentWith .primary (← classText place l)
  | "ArrowFunctionExpression" => return fragmentWith .assign (← arrow place l)
  | "SpreadElement" | "RestElement" => return fragmentWith .assign (← spread place l)
  | "AssignmentPattern" => return fragmentWith .assign (← defaulted place l)
  | "AssignmentExpression" => return fragmentWith .assign (← assignment place l)
  | "SequenceExpression" => return fragmentWith .sequence (← sequence place l)
  | "ConditionalExpression" => return fragmentWith .conditional (← conditional place l)
  | "BinaryExpression" | "LogicalExpression" => binary place l
  | "UnaryExpression" => return fragmentWith .unary (← unary place l)
  | "AwaitExpression" =>
    return fragmentWith .unary ("await " ++ (← (← l.require "argument").expressionText place .unary))
  | "YieldExpression" => return fragmentWith .assign (← yield place l)
  | "UpdateExpression" => update place l
  | "CallExpression" => return fragmentWith .call (← call place l)
  | "NewExpression" => return fragmentWith .call (← construct place l)
  | "MemberExpression" => return fragmentWith .member (← memberAccess place l)
  | _ => .error (.unprintable .expression type)

end Printable

end ScriptTrace
