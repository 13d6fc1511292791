import ScriptTrace.Proofs.ExpressionGrammar
import ScriptTrace.Syntax.Precedence
import ScriptTrace.Text.Digit
import ScriptTrace.Text.Letter

/-!
# Expressions, piece by piece

What is printed for an expression is a row of tokens and spaces.

* `Expression.pieces` : the tokens and spaces of an expression;
* `Expression.operand` : the same where a precedence is required, in parentheses if need be;
* `Begins`, `Expression.Valid.begins` : the first character of the text of an expression.
-/

namespace ScriptTrace

namespace Piece

def comma : Piece := token (.sign ",")

/-- Pieces in parentheses, where there is need. -/
def enclosed (need : Bool) (ps : List Piece) : List Piece :=
  if need then token (.sign "(") :: ps ++ [token (.sign ")")] else ps

/-- Rows of pieces with commas between them. -/
def listed (rows : List (List Piece)) : List Piece := List.intercalate [comma, space] rows

end Piece

/-- Whether a space is needed between an operator and the text of its operand. -/
def UnaryOperator.apart (operator : UnaryOperator) (argument : String) : Bool :=
  (operator.token.text != "" && operator.token.text.toList.all isLetter)
    || String.ofList (argument.toList.take 1) == operator.token.text

namespace BinaryOperator

/-- The precedence that the left operand needs: only powers group to the right. -/
def leftRequired (operator : BinaryOperator) : Precedence :=
  if operator = .power then .postfixOp else Syntax.level operator

/-- The precedence that the right operand needs. -/
def rightRequired (operator : BinaryOperator) : Precedence :=
  if operator = .power then Syntax.level operator else Syntax.level operator + 1

end BinaryOperator

namespace Expression

open Piece

/-- How tightly an expression binds. -/
def precedence : Expression → Precedence
  | name _ | this | number _ | string _ | array _ => .primary
  | unary _ _ => .unary
  | update _ before _ => if before then .unary else .postfixOp
  | binary operator _ _ => Syntax.level operator
  | conditional _ _ _ => .conditional
  | assign _ _ _ => .assign
  | sequence _ => .sequence
  | call _ _ | construct _ _ => .call
  | dot _ _ | index _ _ => .member

/-- Whether a chain of members holds a call. -/
def callInside : Expression → Bool
  | call _ _ => true
  | dot object _ | index object _ => object.callInside
  | _ => false

/-- Whether a point behind the text would belong to it. -/
def bareNumber : Expression → Bool
  | number raw => (raw.toList.head?.map isDigit).getD false
  | _ => false

/-- Whether the last element is a hole, which needs a comma of its own. -/
def endsInHole (items : List (Element Expression)) : Bool :=
  match items.getLast? with
  | some .hole => true
  | _ => false

mutual

/-- The tokens and spaces of an expression. -/
def pieces : Expression → List Piece
  | name text => [token (.word text)]
  | this => [token (.word "this")]
  | number raw => [token (.number raw)]
  | string raw => [token (.string raw)]
  | array items =>
    token (.sign "[") :: (listed (rowsOf items) ++ (if endsInHole items then [comma] else [])) ++ [token (.sign "]")]
  | unary operator e =>
    let argument := enclosed (e.precedence < Precedence.unary) e.pieces
    token operator.token :: (if operator.apart (textOf argument) then [space] else []) ++ argument
  | update operator before e =>
    let argument := enclosed (e.precedence < Precedence.postfixOp) e.pieces
    if before then token operator.token :: argument else argument ++ [token operator.token]
  | binary operator left right =>
    enclosed (left.precedence < operator.leftRequired) left.pieces
      ++ space :: token operator.token :: space :: enclosed (right.precedence < operator.rightRequired) right.pieces
  | conditional test yes no =>
    enclosed (test.precedence < Precedence.conditional + 1) test.pieces
      ++ space :: token (.sign "?") :: space :: enclosed (yes.precedence < Precedence.assign) yes.pieces
      ++ space :: token (.sign ":") :: space :: enclosed (no.precedence < Precedence.assign) no.pieces
  | assign operator target value =>
    enclosed (target.precedence < Precedence.call) target.pieces
      ++ space :: token operator.token :: space :: enclosed (value.precedence < Precedence.assign) value.pieces
  | sequence items => listed (rowsOfItems items)
  | call callee items =>
    enclosed (callee.precedence < Precedence.call) callee.pieces
      ++ token (.sign "(") :: listed (rowsOf items) ++ [token (.sign ")")]
  | construct callee items =>
    token (.word "new") :: space
      :: enclosed (callee.callInside || callee.precedence < Precedence.member) callee.pieces
      ++ token (.sign "(") :: listed (rowsOf items) ++ [token (.sign ")")]
  | dot object property =>
    enclosed (object.bareNumber || object.precedence < Precedence.call) object.pieces
      ++ [token (.sign "."), token (.word property)]
  | index object property =>
    enclosed (object.bareNumber || object.precedence < Precedence.call) object.pieces
      ++ token (.sign "[") :: property.pieces ++ [token (.sign "]")]

/-- The pieces of each element, none for a hole. -/
def rowsOf : List (Element Expression) → List (List Piece)
  | [] => []
  | x :: xs => rowOf x :: rowsOf xs

def rowOf : Element Expression → List Piece
  | .hole => []
  | .item e => enclosed (e.precedence < Precedence.assign) e.pieces
  | .spread e => token (.sign "...") :: enclosed (e.precedence < Precedence.assign) e.pieces

/-- The pieces of each item of a sequence. -/
def rowsOfItems : List Expression → List (List Piece)
  | [] => []
  | e :: es => enclosed (e.precedence < Precedence.assign) e.pieces :: rowsOfItems es

end

/-- The pieces of an expression where a precedence is required. -/
def operand (required : Precedence) (e : Expression) : List Piece := enclosed (e.precedence < required) e.pieces

variable (e left right object : Expression) (items : List (Element Expression))

theorem rowOf_item : rowOf (.item e) = e.operand .assign := rfl

theorem rowOf_spread : rowOf (.spread e) = token (.sign "...") :: e.operand .assign := rfl

theorem rowsOf_eq_map : rowsOf items = items.map rowOf := by
  induction items with
  | nil => rfl
  | cons x xs ih => exact congrArg (rowOf x :: ·) ih

theorem rowsOfItems_eq_map (items : List Expression) : rowsOfItems items = items.map (operand .assign) := by
  induction items with
  | nil => rfl
  | cons x xs ih => exact congrArg (operand .assign x :: ·) ih

theorem pieces_array : pieces (.array items) =
    token (.sign "[") :: (listed (items.map rowOf) ++ (if endsInHole items then [comma] else [])) ++ [token (.sign "]")] := by
  rw [← rowsOf_eq_map]; rfl

theorem pieces_unary (operator : UnaryOperator) : pieces (.unary operator e) =
    token operator.token :: (if operator.apart (textOf (e.operand .unary)) then [space] else []) ++ e.operand .unary :=
  rfl

theorem pieces_update (operator : UpdateOperator) (before : Bool) : pieces (.update operator before e) =
    if before then token operator.token :: e.operand .postfixOp else e.operand .postfixOp ++ [token operator.token] :=
  rfl

theorem pieces_binary (operator : BinaryOperator) : pieces (.binary operator left right) =
    left.operand operator.leftRequired ++ space :: token operator.token :: space :: right.operand operator.rightRequired :=
  rfl

theorem pieces_conditional (test yes no : Expression) : pieces (.conditional test yes no) =
    test.operand (Precedence.conditional + 1) ++ space :: token (.sign "?") :: space :: yes.operand .assign
      ++ space :: token (.sign ":") :: space :: no.operand .assign :=
  rfl

theorem pieces_assign (operator : AssignOperator) : pieces (.assign operator left right) =
    left.operand .call ++ space :: token operator.token :: space :: right.operand .assign :=
  rfl

theorem pieces_sequence (es : List Expression) : pieces (.sequence es) = listed (es.map (operand .assign)) := by
  rw [← rowsOfItems_eq_map]; rfl

theorem pieces_call : pieces (.call e items) =
    e.operand .call ++ token (.sign "(") :: listed (items.map rowOf) ++ [token (.sign ")")] := by
  rw [← rowsOf_eq_map]; rfl

theorem pieces_construct : pieces (.construct e items) =
    token (.word "new") :: space :: enclosed (e.callInside || e.precedence < Precedence.member) e.pieces
      ++ token (.sign "(") :: listed (items.map rowOf) ++ [token (.sign ")")] := by
  rw [← rowsOf_eq_map]; rfl

theorem pieces_dot (property : String) : pieces (.dot object property) =
    enclosed (object.bareNumber || object.precedence < Precedence.call) object.pieces
      ++ [token (.sign "."), token (.word property)] :=
  rfl

theorem pieces_index : pieces (.index object e) =
    enclosed (object.bareNumber || object.precedence < Precedence.call) object.pieces
      ++ token (.sign "[") :: e.pieces ++ [token (.sign "]")] :=
  rfl

end Expression

theorem Piece.textOf_listed (rows : List (List Piece)) : textOf (listed rows) = ", ".intercalate (rows.map textOf) := by
  induction rows with
  | nil => rfl
  | cons row rows ih =>
    cases rows with
    | nil => simp [listed]
    | cons other rows =>
      rw [listed, List.intercalate_cons_cons, ← listed, textOf_append, textOf_append, ih, List.map_cons, List.map_cons,
        List.map_cons, String.intercalate_cons_cons]
      rfl

theorem Piece.textOf_enclosed (need : Bool) (ps : List Piece) :
    textOf (enclosed need ps) = if need then "(" ++ textOf ps ++ ")" else textOf ps := by
  unfold enclosed
  split
  · simp [text, Token.text, String.append_assoc]
  · rfl

/-! ## How texts begin -/

/-- A text that begins with some other character than an equality sign. -/
def Begins (text : String) : Prop := ∃ c cs, text.toList = c :: cs ∧ c ≠ '='

namespace Begins

theorem append {text : String} (h : Begins text) (more : String) : Begins (text ++ more) := by
  obtain ⟨c, cs, htext, hc⟩ := h
  exact ⟨c, cs ++ more.toList, by rw [String.toList_append, htext]; rfl, hc⟩

theorem ne_empty {text : String} (h : Begins text) : text ≠ "" := by
  obtain ⟨c, cs, htext, -⟩ := h
  rintro rfl
  cases htext

theorem token {t : Token} (ps : List Piece) (h : Begins t.text) : Begins (Piece.textOf (.token t :: ps)) := by
  rw [Piece.textOf_cons]
  exact h.append _

theorem sign {text : String} {c : Char} {cs : List Char} (h : text.toList = c :: cs) (hc : c ≠ '=') (ps : List Piece) :
    Begins (Piece.textOf (.token (.sign text) :: ps)) :=
  token ps ⟨c, cs, h, hc⟩

theorem pieces {ps : List Piece} (h : Begins (Piece.textOf ps)) (qs : List Piece) : Begins (Piece.textOf (ps ++ qs)) := by
  rw [Piece.textOf_append]
  exact h.append _

theorem enclosed {ps : List Piece} (h : Begins (Piece.textOf ps)) (need : Bool) :
    Begins (Piece.textOf (Piece.enclosed need ps)) := by
  unfold Piece.enclosed
  split
  · exact sign rfl (by decide) _
  · exact h

theorem listed {row : List Piece} (h : Begins (Piece.textOf row)) (rows : List (List Piece)) :
    Begins (Piece.textOf (Piece.listed (row :: rows))) := by
  cases rows with
  | nil => simpa [Piece.listed] using h
  | cons other rows =>
    rw [Piece.listed, List.intercalate_cons_cons]
    exact (h.pieces _).pieces _

end Begins

theorem UnaryOperator.begins (operator : UnaryOperator) : Begins operator.token.text := by
  cases operator <;> exact ⟨_, _, rfl, by decide⟩

theorem UpdateOperator.begins (operator : UpdateOperator) : Begins operator.token.text := by
  cases operator <;> exact ⟨_, _, rfl, by decide⟩

theorem Expression.Valid.begins {A : Alphabet} {e : Expression} (h : e.Valid A) : Begins (Piece.textOf e.pieces) := by
  induction h with
  | name htoken _ => exact Begins.token [] (htoken.begins (by rintro _ ⟨⟩))
  | this => exact Begins.token [] ⟨_, _, rfl, by decide⟩
  | number htoken => exact Begins.token [] (htoken.begins (by rintro _ ⟨⟩))
  | string htoken => exact Begins.token [] (htoken.begins (by rintro _ ⟨⟩))
  | array _ _ => rw [pieces]; exact Begins.sign rfl (by decide) _
  | unary _ _ => rw [pieces]; exact (Begins.token _ (UnaryOperator.begins _))
  | @update operator before target _ _ ih =>
    rw [pieces]
    cases before with
    | true => exact Begins.token _ operator.begins
    | false => exact (ih.enclosed _).pieces _
  | binary _ _ ih _ => rw [pieces]; exact (ih.enclosed _).pieces _
  | conditional _ _ _ ih _ _ => rw [pieces]; exact ((ih.enclosed _).pieces _).pieces _
  | assign _ _ _ ih _ => rw [pieces]; exact (ih.enclosed _).pieces _
  | sequence hlength _ ih =>
    rename_i items _
    cases items with
    | nil => cases hlength
    | cons e es => rw [pieces, rowsOfItems]; exact ((ih e (List.mem_cons_self ..)).enclosed _).listed _
  | call _ _ _ ih _ => rw [pieces]; exact ((ih.enclosed _).pieces _).pieces _
  | construct _ _ _ _ _ => rw [pieces]; exact Begins.token _ ⟨_, _, rfl, by decide⟩
  | dot _ _ ih => rw [pieces]; exact (ih.enclosed _).pieces _
  | index _ _ ih _ => rw [pieces]; exact ((ih.enclosed _).pieces _).pieces _

end ScriptTrace
