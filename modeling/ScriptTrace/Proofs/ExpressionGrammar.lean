import ScriptTrace.Proofs.Expressions
import Mathlib.Tactic.Simps.Basic

/-!
# Reading expressions

The grammar of expressions in ECMAScript, rule by rule, as functions that read an expression from the front of
a list of tokens. Parentheses only group: they leave nothing in the tree. Every `new` has a list of arguments.

* `Syntax.Readers` : what the rules read behind a token that they have read themselves;
* `Syntax.expression`, `Syntax.assignment`, ... : the rules, from loosest to tightest;
* `Syntax.rules`, `Syntax.readers` : the rules among themselves, as deep as there are tokens;
* `Alphabet.read` : the expression that a whole text is.

A rule begins with the next tighter one, and goes on only behind a token. So no reading is nested deeper than
there are tokens.
-/

namespace ScriptTrace

/-- The operator of a kind that a token is. -/
def Token.operator? {α : Type} (all : List α) (token : α → Token) (t : Token) : Option α :=
  all.find? fun operator => token operator = t

namespace Syntax

/-- The rule of the grammar that an operator between two operands belongs to, the loosest one first. -/
def level : BinaryOperator → Nat
  | .or => 3
  | .and => 4
  | .bitOr => 5
  | .bitXor => 6
  | .bitAnd => 7
  | .equal | .unequal | .same | .different => 8
  | .less | .greater | .lessEqual | .greaterEqual | .isIn | .instanceOf => 9
  | .shiftLeft | .shiftRight | .shiftRightUnsigned => 10
  | .add | .subtract => 11
  | .multiply | .divide | .remainder => 12
  | .power => 13

/-- The tokens behind one that must be there. -/
def expect (t : Token) : List Token → Option (List Token)
  | [] => none
  | u :: ts => if u = t then some ts else none

/-- Expressions with commas between them; a single one is itself. -/
def sequenceOf (first : Expression) : List Expression → Expression
  | [] => first
  | more => .sequence (first :: more)

/-- Whether the tokens begin with an operator before an operand. -/
def beginsUnary : List Token → Bool
  | [] => false
  | t :: _ => (t.operator? UnaryOperator.all UnaryOperator.token).isSome

/-- What is read from the front of some tokens, and the tokens behind it. -/
abbrev Reader (α : Type) := List Token → Option (α × List Token)

/-- How the rules read behind a token of their own. -/
structure Readers where
  expression : Reader Expression
  moreItems : Reader (List Expression)
  assignment : Reader Expression
  binary : Nat → Reader Expression
  binaryMore : Nat → Expression → Reader Expression
  power : Reader Expression
  unary : Reader Expression
  leftHand : Bool → Reader Expression
  suffixes : Bool → Expression → Reader Expression
  element : Reader (Element Expression)
  elements : Reader (List (Element Expression))
  arguments : Reader (List (Element Expression))
  moreArguments : Reader (List (Element Expression))
deriving Inhabited

section Rules

variable (inner : Readers)

/-- PrimaryExpression. -/
def primary : Reader Expression
  | .word "this" :: ts => some (.this, ts)
  | .word text :: ts => if text ∈ reservedWords then none else some (.name text, ts)
  | .number raw :: ts => some (.number raw, ts)
  | .string raw :: ts => some (.string raw, ts)
  | .sign "(" :: ts => do
    let (e, ts) ← inner.expression ts
    let ts ← expect (.sign ")") ts
    return (e, ts)
  | .sign "[" :: ts => do
    let (items, ts) ← inner.elements ts
    return (.array items, ts)
  | _ => none

/-- What members and calls begin with: `new` with a MemberExpression and arguments, or a PrimaryExpression. -/
def head : Reader Expression
  | .word "new" :: ts => do
    let (callee, ts) ← inner.leftHand false ts
    let (items, ts) ← inner.arguments ts
    return (.construct callee items, ts)
  | ts => primary inner ts

/-- Arguments in their parentheses. -/
def arguments : Reader (List (Element Expression))
  | .sign "(" :: .sign ")" :: ts => some ([], ts)
  | .sign "(" :: ts => do
    let (item, ts) ← inner.element ts
    let (items, ts) ← inner.moreArguments ts
    return (item :: items, ts)
  | _ => none

/-- The arguments behind another one. -/
def moreArguments : Reader (List (Element Expression))
  | .sign ")" :: ts => some ([], ts)
  | .sign "," :: .sign ")" :: ts => some ([], ts)
  | .sign "," :: ts => do
    let (item, ts) ← inner.element ts
    let (items, ts) ← inner.moreArguments ts
    return (item :: items, ts)
  | _ => none

/-- The members and calls that follow. -/
def suffixes (calls : Bool) (e : Expression) : Reader Expression
  | .sign "." :: .word property :: ts => inner.suffixes calls (.dot e property) ts
  | .sign "[" :: ts => do
    let (property, ts) ← inner.expression ts
    let ts ← expect (.sign "]") ts
    inner.suffixes calls (.index e property) ts
  | .sign "(" :: rest =>
    if calls then do
      let (items, rest) ← arguments inner (.sign "(" :: rest)
      inner.suffixes calls (.call e items) rest
    else some (e, .sign "(" :: rest)
  | ts => some (e, ts)

/-- LeftHandSideExpression; MemberExpression, where calls are not allowed. -/
def leftHand (calls : Bool) (ts : List Token) : Option (Expression × List Token) := do
  let (e, ts) ← head inner ts
  suffixes inner calls e ts

/-- UpdateExpression. -/
def update : Reader Expression
  | [] => none
  | t :: rest =>
    match t.operator? UpdateOperator.all UpdateOperator.token with
    | some operator => do
      let (e, rest) ← inner.unary rest
      if e.isTarget then return (.update operator true e, rest) else none
    | none => do
      let (e, rest) ← leftHand inner true (t :: rest)
      match rest with
      | [] => return (e, [])
      | t :: more =>
        match t.operator? UpdateOperator.all UpdateOperator.token with
        | none => return (e, t :: more)
        | some operator => if e.isTarget then return (.update operator false e, more) else none

/-- UnaryExpression. -/
def unary : Reader Expression
  | [] => none
  | t :: rest =>
    match t.operator? UnaryOperator.all UnaryOperator.token with
    | none => update inner (t :: rest)
    | some operator => do
      let (e, rest) ← inner.unary rest
      return (.unary operator e, rest)

/-- ExponentiationExpression: powers group to the right, and the base has no operator before it. -/
def power (ts : List Token) : Option (Expression × List Token) := do
  let (left, rest) ← unary inner ts
  match rest with
  | .sign "**" :: rest =>
    if beginsUnary ts then none
    else
      let (right, rest) ← inner.power rest
      return (.binary .power left right, rest)
  | _ => return (left, rest)

/-- The further operands of operators of one rule, grouped to the left. -/
def binaryMore (rule : Nat) (left : Expression) : Reader Expression
  | [] => some (left, [])
  | t :: rest =>
    match t.operator? BinaryOperator.all BinaryOperator.token with
    | none => some (left, t :: rest)
    | some operator =>
      if level operator = rule then do
        let (right, rest) ← inner.binary (rule + 1) rest
        inner.binaryMore rule (.binary operator left right) rest
      else some (left, t :: rest)

/-- LogicalORExpression to MultiplicativeExpression: operands of the next rule with operators of this one between
them. -/
def binary (rule : Nat) (ts : List Token) : Option (Expression × List Token) :=
  if 12 < rule then power inner ts
  else do
    let (left, ts) ← binary (rule + 1) ts
    binaryMore inner rule left ts
termination_by 13 - rule

/-- ConditionalExpression. -/
def conditional (ts : List Token) : Option (Expression × List Token) := do
  let (test, ts) ← binary inner 3 ts
  match ts with
  | .sign "?" :: ts =>
    let (yes, ts) ← inner.assignment ts
    let ts ← expect (.sign ":") ts
    let (no, ts) ← inner.assignment ts
    return (.conditional test yes no, ts)
  | _ => return (test, ts)

/-- AssignmentExpression: only names and members can be assigned to. -/
def assignment (ts : List Token) : Option (Expression × List Token) := do
  let (left, ts) ← conditional inner ts
  match ts with
  | [] => return (left, [])
  | t :: rest =>
    match t.operator? AssignOperator.all AssignOperator.token with
    | none => return (left, t :: rest)
    | some operator =>
      if left.isTarget then
        let (right, rest) ← inner.assignment rest
        return (.assign operator left right, rest)
      else none

/-- The further items of a sequence. -/
def moreItems : Reader (List Expression)
  | .sign "," :: ts => do
    let (e, ts) ← inner.assignment ts
    let (es, ts) ← inner.moreItems ts
    return (e :: es, ts)
  | ts => some ([], ts)

/-- Expression: assignments with commas between them. -/
def expression (ts : List Token) : Option (Expression × List Token) := do
  let (first, ts) ← assignment inner ts
  let (more, ts) ← moreItems inner ts
  return (sequenceOf first more, ts)

/-- An element of an array or an argument. -/
def element : Reader (Element Expression)
  | .sign "..." :: ts => do
    let (e, ts) ← inner.assignment ts
    return (.spread e, ts)
  | ts => do
    let (e, ts) ← assignment inner ts
    return (.item e, ts)

/-- The elements behind another one. -/
def moreElements : Reader (List (Element Expression))
  | .sign "]" :: ts => some ([], ts)
  | .sign "," :: ts => inner.elements ts
  | _ => none

/-- The elements of an array up to its end. A comma without an element before it stands for a hole. -/
def elements : Reader (List (Element Expression))
  | .sign "]" :: ts => some ([], ts)
  | .sign "," :: ts => do
    let (items, ts) ← inner.elements ts
    return (.hole :: items, ts)
  | ts => do
    let (item, ts) ← element inner ts
    let (items, ts) ← moreElements inner ts
    return (item :: items, ts)

/-- The rules, over what is read behind a token. -/
@[simps]
def rules : Readers where
  expression := expression inner
  moreItems := moreItems inner
  assignment := assignment inner
  binary := binary inner
  binaryMore := binaryMore inner
  power := power inner
  unary := unary inner
  leftHand := leftHand inner
  suffixes := suffixes inner
  element := element inner
  elements := elements inner
  arguments := arguments inner
  moreArguments := moreArguments inner

end Rules

/-- The rules, nested so deep; at the bottom nothing is read. -/
def readers : Nat → Readers
  | 0 => default
  | depth + 1 => rules (readers depth)

/-- The rule has this answer for the tokens, wherever the rules are nested deep enough for so many tokens. -/
def Reads {α : Type} (rule : Readers → Reader α) (ts : List Token) (answer : Option (α × List Token)) : Prop :=
  ∀ depth, ts.length ≤ depth → rule (readers depth) ts = answer

namespace Reads

variable {α : Type} {rule rule' : Readers → Reader α} {t : Token} {ts rest : List Token}
  {answer : Option (α × List Token)}

/-- Where there is a token, the rules are nested one level deep at least. -/
theorem of_token (before : List Token)
    (h : ∀ depth, (before ++ t :: rest).length ≤ depth + 1 → rule (rules (readers depth)) (before ++ t :: rest) = answer) :
    Reads rule (before ++ t :: rest) answer := by
  intro depth hdepth
  cases depth with
  | zero => simp at hdepth
  | succ depth => exact h depth hdepth

theorem of_cons (h : ∀ depth, rest.length ≤ depth → rule (rules (readers depth)) (t :: rest) = answer) :
    Reads rule (t :: rest) answer :=
  of_token [] fun depth hdepth => h depth (Nat.le_of_succ_le_succ hdepth)

/-- The answer at one level more. -/
theorem within (depth : Nat) (h : Reads rule ts answer) (hle : ts.length ≤ depth + 1) :
    rule (rules (readers depth)) ts = answer :=
  h (depth + 1) hle

/-- A rule that goes on with another one has its answer. -/
theorem then_rule
    (h : ∀ depth, (ts ++ rest).length ≤ depth → rule (readers depth) (ts ++ rest) = rule' (readers depth) rest)
    (hrest : Reads rule' rest answer) : Reads rule (ts ++ rest) answer := fun depth hdepth =>
  (h depth hdepth).trans (hrest depth (by rw [List.length_append] at hdepth; omega))

end Reads

end Syntax

/-- The expression that a text is, from its first token to its last. -/
def Alphabet.read (A : Alphabet) (text : String) : Option Expression := do
  let ts ← A.tokens text
  let (e, rest) ← Syntax.expression (Syntax.readers ts.length) ts
  if rest.isEmpty then some e else none

end ScriptTrace
