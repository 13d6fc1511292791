import ScriptTrace.Proofs.Grammar
import ScriptTrace.Proofs.Tokens

/-!
# Expressions as trees

The expressions of the language without functions, classes, objects, templates and regular expressions, as a
tree that says nothing of parentheses or space.

* `Expression` : the trees; `UnaryOperator`, `UpdateOperator`, `BinaryOperator`, `AssignOperator` : the
  operators, each with its token;
* `Expression.Valid` : what the syntax asks of names, literals, targets and sequences;
* `Encodes` : which syntax trees in JSON stand for which expression.
-/

namespace ScriptTrace

/-! ## Operators -/

inductive UnaryOperator where
  | minus | plus | not | complement | typeof | void | delete
  deriving DecidableEq, Repr

inductive UpdateOperator where
  | increment | decrement
  deriving DecidableEq, Repr

/-- The operators between two operands, those of logic included. -/
inductive BinaryOperator where
  | or | and | bitOr | bitXor | bitAnd
  | equal | unequal | same | different
  | less | greater | lessEqual | greaterEqual | isIn | instanceOf
  | shiftLeft | shiftRight | shiftRightUnsigned
  | add | subtract | multiply | divide | remainder | power
  deriving DecidableEq, Repr

/-- Plain assignment, or one with an operator. -/
inductive AssignOperator where
  | set | add | subtract | multiply | divide | remainder | power
  | shiftLeft | shiftRight | shiftRightUnsigned | bitAnd | bitOr | bitXor | and | or | orNull
  deriving DecidableEq, Repr

namespace UnaryOperator

def all : List UnaryOperator := [minus, plus, not, complement, typeof, void, delete]

def token : UnaryOperator → Token
  | minus => .sign "-"
  | plus => .sign "+"
  | not => .sign "!"
  | complement => .sign "~"
  | typeof => .word "typeof"
  | void => .word "void"
  | delete => .word "delete"

end UnaryOperator

namespace UpdateOperator

def all : List UpdateOperator := [increment, decrement]

def token : UpdateOperator → Token
  | increment => .sign "++"
  | decrement => .sign "--"

end UpdateOperator

namespace BinaryOperator

def all : List BinaryOperator := [
  or, and, bitOr, bitXor, bitAnd, equal, unequal, same, different, less, greater, lessEqual, greaterEqual, isIn,
  instanceOf, shiftLeft, shiftRight, shiftRightUnsigned, add, subtract, multiply, divide, remainder, power]

def token : BinaryOperator → Token
  | or => .sign "||"
  | and => .sign "&&"
  | bitOr => .sign "|"
  | bitXor => .sign "^"
  | bitAnd => .sign "&"
  | equal => .sign "=="
  | unequal => .sign "!="
  | same => .sign "==="
  | different => .sign "!=="
  | less => .sign "<"
  | greater => .sign ">"
  | lessEqual => .sign "<="
  | greaterEqual => .sign ">="
  | isIn => .word "in"
  | instanceOf => .word "instanceof"
  | shiftLeft => .sign "<<"
  | shiftRight => .sign ">>"
  | shiftRightUnsigned => .sign ">>>"
  | add => .sign "+"
  | subtract => .sign "-"
  | multiply => .sign "*"
  | divide => .sign "/"
  | remainder => .sign "%"
  | power => .sign "**"

/-- The type of the nodes with this operator. -/
def nodeType : BinaryOperator → String
  | or | and => "LogicalExpression"
  | _ => "BinaryExpression"

end BinaryOperator

namespace AssignOperator

def all : List AssignOperator := [
  set, add, subtract, multiply, divide, remainder, power, shiftLeft, shiftRight, shiftRightUnsigned, bitAnd, bitOr,
  bitXor, and, or, orNull]

def token : AssignOperator → Token
  | set => .sign "="
  | add => .sign "+="
  | subtract => .sign "-="
  | multiply => .sign "*="
  | divide => .sign "/="
  | remainder => .sign "%="
  | power => .sign "**="
  | shiftLeft => .sign "<<="
  | shiftRight => .sign ">>="
  | shiftRightUnsigned => .sign ">>>="
  | bitAnd => .sign "&="
  | bitOr => .sign "|="
  | bitXor => .sign "^="
  | and => .sign "&&="
  | or => .sign "||="
  | orNull => .sign "??="

end AssignOperator

/-! ## Trees -/

/-- An element of an array or an argument of a call. -/
inductive Element (α : Type) where
  | hole
  | item (value : α)
  | spread (value : α)
  deriving DecidableEq, Repr

def Element.value? {α : Type} : Element α → Option α
  | hole => none
  | item value => some value
  | spread value => some value

/-- An expression. Literals are told by their text in the program. -/
inductive Expression where
  | name (text : String)
  | this
  | number (raw : String)
  | string (raw : String)
  | array (items : List (Element Expression))
  | unary (operator : UnaryOperator) (argument : Expression)
  | update (operator : UpdateOperator) (before : Bool) (target : Expression)
  | binary (operator : BinaryOperator) (left right : Expression)
  | conditional (test yes no : Expression)
  | assign (operator : AssignOperator) (target value : Expression)
  | sequence (items : List Expression)
  | call (callee : Expression) (arguments : List (Element Expression))
  | construct (callee : Expression) (arguments : List (Element Expression))
  | dot (object : Expression) (property : String)
  | index (object property : Expression)
  deriving Repr

/-- The words that are no names anywhere. -/
def reservedWords : List String := [
  "break", "case", "catch", "class", "const", "continue", "debugger", "default", "delete", "do", "else", "enum",
  "export", "extends", "false", "finally", "for", "function", "if", "import", "in", "instanceof", "new", "null",
  "return", "super", "switch", "this", "throw", "true", "try", "typeof", "var", "void", "while", "with"]

namespace Expression

/-- What can be assigned to: names and members. -/
def isTarget : Expression → Bool
  | name _ | dot _ _ | index _ _ => true
  | _ => false

/-- The expressions of the language: names are words that are not reserved, literals are tokens, targets can be
assigned to, sequences have at least two items, and only arrays have holes. -/
inductive Valid (A : Alphabet) : Expression → Prop
  | name {text : String} : (Token.word text).Proper A → text ∉ reservedWords → Valid A (name text)
  | this : Valid A this
  | number {raw : String} : (Token.number raw).Proper A → Valid A (number raw)
  | string {raw : String} : (Token.string raw).Proper A → Valid A (string raw)
  | array {items : List (Element Expression)} : (∀ x ∈ items, ∀ e ∈ x.value?, Valid A e) → Valid A (array items)
  | unary {operator : UnaryOperator} {e : Expression} : Valid A e → Valid A (unary operator e)
  | update {operator : UpdateOperator} {before : Bool} {target : Expression} :
    target.isTarget = true → Valid A target → Valid A (update operator before target)
  | binary {operator : BinaryOperator} {left right : Expression} :
    Valid A left → Valid A right → Valid A (binary operator left right)
  | conditional {test yes no : Expression} : Valid A test → Valid A yes → Valid A no → Valid A (conditional test yes no)
  | assign {operator : AssignOperator} {target value : Expression} :
    target.isTarget = true → Valid A target → Valid A value → Valid A (assign operator target value)
  | sequence {items : List Expression} : 2 ≤ items.length → (∀ e ∈ items, Valid A e) → Valid A (sequence items)
  | call {callee : Expression} {arguments : List (Element Expression)} : Valid A callee → (.hole ∉ arguments) →
    (∀ x ∈ arguments, ∀ e ∈ x.value?, Valid A e) → Valid A (call callee arguments)
  | construct {callee : Expression} {arguments : List (Element Expression)} : Valid A callee → (.hole ∉ arguments) →
    (∀ x ∈ arguments, ∀ e ∈ x.value?, Valid A e) → Valid A (construct callee arguments)
  | dot {object : Expression} {property : String} :
    Valid A object → (Token.word property).Proper A → Valid A (dot object property)
  | index {object property : Expression} : Valid A object → Valid A property → Valid A (index object property)

end Expression

/-! ## Expressions in JSON -/

def Json.isNumber : Json → Bool
  | int _ | float _ => true
  | _ => false

mutual

/-- The syntax tree stands for the expression. Fields that say nothing of the expression, such as places in the
source, may be there as well. -/
inductive Encodes : Json → Expression → Prop
  | name {fields : Fields Json} {text : String} : Fields.type? fields = some "Identifier" →
    Fields.get? "name" fields = some (.str text) → Encodes (.obj fields) (.name text)
  | this {fields : Fields Json} : Fields.type? fields = some "ThisExpression" → Encodes (.obj fields) .this
  | number {fields : Fields Json} {raw : String} {value : Json} : Fields.type? fields = some "Literal" →
    Fields.get? "raw" fields = some (.str raw) → Fields.get? "value" fields = some value →
    value.isNumber = true → Encodes (.obj fields) (.number raw)
  | string {fields : Fields Json} {raw content : String} : Fields.type? fields = some "Literal" →
    Fields.get? "raw" fields = some (.str raw) → Fields.get? "value" fields = some (.str content) →
    Encodes (.obj fields) (.string raw)
  | array {fields : Fields Json} {elements : List Json} {items : List (Element Expression)} :
    Fields.type? fields = some "ArrayExpression" → Fields.get? "elements" fields = some (.arr elements) →
    List.Forall₂ EncodesElement elements items → Encodes (.obj fields) (.array items)
  | unary {fields : Fields Json} {operator : UnaryOperator} {argument : Json} {e : Expression} :
    Fields.type? fields = some "UnaryExpression" → Fields.get? "operator" fields = some (.str operator.token.text) →
    Fields.get? "argument" fields = some argument → Encodes argument e → Encodes (.obj fields) (.unary operator e)
  | update {fields : Fields Json} {operator : UpdateOperator} {before : Bool} {argument : Json} {e : Expression} :
    Fields.type? fields = some "UpdateExpression" → Fields.get? "operator" fields = some (.str operator.token.text) →
    Fields.get? "prefix" fields = some (.bool before) → Fields.get? "argument" fields = some argument →
    Encodes argument e → Encodes (.obj fields) (.update operator before e)
  | binary {fields : Fields Json} {operator : BinaryOperator} {left right : Json} {l r : Expression} :
    Fields.type? fields = some operator.nodeType → Fields.get? "operator" fields = some (.str operator.token.text) →
    Fields.get? "left" fields = some left → Fields.get? "right" fields = some right → Encodes left l → Encodes right r →
    Encodes (.obj fields) (.binary operator l r)
  | conditional {fields : Fields Json} {test consequent alternate : Json} {t y n : Expression} :
    Fields.type? fields = some "ConditionalExpression" → Fields.get? "test" fields = some test →
    Fields.get? "consequent" fields = some consequent → Fields.get? "alternate" fields = some alternate →
    Encodes test t → Encodes consequent y → Encodes alternate n → Encodes (.obj fields) (.conditional t y n)
  | assign {fields : Fields Json} {operator : AssignOperator} {left right : Json} {target value : Expression} :
    Fields.type? fields = some "AssignmentExpression" → Fields.get? "operator" fields = some (.str operator.token.text) →
    Fields.get? "left" fields = some left → Fields.get? "right" fields = some right → Encodes left target →
    Encodes right value → Encodes (.obj fields) (.assign operator target value)
  | sequence {fields : Fields Json} {expressions : List Json} {items : List Expression} :
    Fields.type? fields = some "SequenceExpression" → Fields.get? "expressions" fields = some (.arr expressions) →
    List.Forall₂ Encodes expressions items → Encodes (.obj fields) (.sequence items)
  | call {fields : Fields Json} {callee : Json} {arguments : List Json} {c : Expression} {items : List (Element Expression)} :
    Fields.type? fields = some "CallExpression" → Fields.get? "callee" fields = some callee →
    Fields.get? "arguments" fields = some (.arr arguments) → Encodes callee c →
    List.Forall₂ EncodesElement arguments items → Encodes (.obj fields) (.call c items)
  | construct {fields : Fields Json} {callee : Json} {arguments : List Json} {c : Expression}
    {items : List (Element Expression)} :
    Fields.type? fields = some "NewExpression" → Fields.get? "callee" fields = some callee →
    Fields.get? "arguments" fields = some (.arr arguments) → Encodes callee c →
    List.Forall₂ EncodesElement arguments items → Encodes (.obj fields) (.construct c items)
  | dot {fields property : Fields Json} {object : Json} {o : Expression} {text : String} :
    Fields.type? fields = some "MemberExpression" → Fields.get? "computed" fields = some (.bool false) →
    Fields.get? "object" fields = some object → Fields.get? "property" fields = some (.obj property) →
    Fields.type? property = some "Identifier" → Fields.get? "name" property = some (.str text) → Encodes object o →
    Encodes (.obj fields) (.dot o text)
  | index {fields : Fields Json} {object property : Json} {o p : Expression} :
    Fields.type? fields = some "MemberExpression" → Fields.get? "computed" fields = some (.bool true) →
    Fields.get? "object" fields = some object → Fields.get? "property" fields = some property → Encodes object o →
    Encodes property p → Encodes (.obj fields) (.index o p)

/-- An element of an array, or an argument. -/
inductive EncodesElement : Json → Element Expression → Prop
  | hole : EncodesElement .null .hole
  | item {j : Json} {e : Expression} : Encodes j e → EncodesElement j (.item e)
  | spread {fields : Fields Json} {argument : Json} {e : Expression} : Fields.type? fields = some "SpreadElement" →
    Fields.get? "argument" fields = some argument → Encodes argument e → EncodesElement (.obj fields) (.spread e)

end

end ScriptTrace
