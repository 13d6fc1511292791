import ScriptTrace.Proofs.ExpressionPieces
import ScriptTrace.Proofs.NodeReading
import ScriptTrace.Syntax.Printer.Statement

/-!
# The printed text of expressions

The printer makes text of text, from the leaves of a tree up. For the node of an expression it makes the text of
the pieces of this expression.

* `Prints` : a value whose printed forms are those of an expression; one lemma for each type of node;
* `Encodes.prints`, `Encodes.printNode` : what is printed for every expression.
-/

namespace ScriptTrace

/-! ## Reading the fields of a node that is printed -/

section Fields

variable {fields : Fields Json} {key type : String}

/-- A value with its printed forms. -/
abbrev printable (j : Json) : Printable := j.annotate Printable.forms

/-- The fields of a node with their printed forms. -/
def printed (fields : Fields Json) : Layer Printable := .obj (Fields.mapValues printable fields)

theorem layer_printable (fields : Fields Json) : layer (printable (.obj fields)) = printed fields :=
  Json.layer_annotate_obj Printable.forms fields

theorem require_printed {v : Json} (h : Fields.get? key fields = some v) :
    (printed fields).require key = .ok (printable v) :=
  Layer.require_of_get? (by rw [Fields.get?_mapValues, h]; rfl)

theorem optional_printed {v : Json} (h : Fields.get? key fields = some v) (hv : v ≠ .null) :
    (printed fields).optional key = .ok (some (printable v)) := by
  rw [printed, Layer.optional, Fields.get?_mapValues, h]
  cases v with
  | null => exact absurd rfl hv
  | _ => rfl

theorem flag_printed {b : Bool} (h : Fields.get? key fields = some (.bool b)) : (printed fields).flag key = .ok b := by
  rw [Layer.flag, optional_printed h (by simp)]
  rfl

theorem textOf_printed {text : String} (h : Fields.get? key fields = some (.str text)) :
    Printable.textOf key (printed fields) = .ok text := by
  rw [Printable.textOf, require_printed h]
  rfl

theorem hasType_printed (h : Fields.type? fields = some type) (t : String) : (printed fields).hasType t = .ok (type == t) :=
  Json.hasType_annotated Printable.forms h t

theorem hasTypeIn_printed (h : Fields.type? fields = some type) (ts : List String) :
    (printed fields).hasTypeIn ts = .ok (ts.contains type) :=
  hasTypeIn_obj (Json.get?_type_annotated Printable.forms h) (Json.layer_annotate_str Printable.forms type) ts

theorem fragment_printed (h : Fields.type? fields = some type) (place : Place) :
    Printable.fragment place (printable (.obj fields)) = Printable.fragmentOf type place (printed fields) := by
  rw [Printable.fragment, Json.note_annotate, Json.note_obj]
  simp only [Printable.forms]
  rw [← printed, textOf_printed (Fields.get?_of_type? h), ok_bind]

theorem statement_printed (h : Fields.type? fields = some type) (place : Place) :
    Printable.statement place (printable (.obj fields)) = Printable.statementOf type place (printed fields) := by
  rw [Printable.statement, Json.note_annotate, Json.note_obj]
  simp only [Printable.forms]
  rw [← printed, textOf_printed (Fields.get?_of_type? h), ok_bind]

theorem callInside_printed (fields : Fields Json) :
    Printable.callInside (printable (.obj fields)) = Printable.chainHasCall (printed fields) := by
  rw [Printable.callInside, Json.note_annotate, Json.note_obj]
  rfl

/-- A list of parts, each of which is printed. -/
theorem mapM_printed {α β : Type} {f : Printable → Except Fault β} {g : α → β} {items : List Json} {xs : List α}
    (h : List.Forall₂ (fun j x => f (printable j) = .ok (g x)) items xs) :
    (items.map printable).mapM f = .ok (xs.map g) := by
  induction h with
  | nil => rfl
  | cons hx _ ih => rw [List.map_cons, List.mapM_cons, hx, ok_bind, ih]; rfl

theorem mapM_mapped {α β γ : Type} {f : α → Except Fault β} {g : β → γ} {as : List α} {cs : List γ}
    (h : as.mapM (fun a => return g (← f a)) = .ok cs) : ∃ bs, as.mapM f = .ok bs ∧ cs = bs.map g := by
  induction as generalizing cs with
  | nil =>
    cases h
    exact ⟨[], rfl, rfl⟩
  | cons a as ih =>
    rw [List.mapM_cons] at h
    obtain ⟨c, hc, h⟩ := bind_eq_ok.1 h
    obtain ⟨b, hb, hg⟩ := bind_eq_ok.1 hc
    obtain ⟨below, hbelow, h⟩ := bind_eq_ok.1 h
    obtain ⟨bs, hbs, rfl⟩ := ih hbelow
    cases hg
    cases h
    refine ⟨b :: bs, ?_, rfl⟩
    rw [List.mapM_cons, hb, hbs]
    rfl

/-- The texts of statements in braces, each on a line of its own. -/
def braced (place : Place) (texts : List String) : String :=
  "\x7b\n" ++ "\n".intercalate (texts.map (place.deeper.pad ++ ·)) ++ "\n" ++ place.pad ++ "\x7d"

theorem exists_braced {items : List Json} {place : Place} {text : String}
    (h : Printable.inBraces place (items.map printable) = .ok text) : ∃ texts,
      (items.map printable).mapM (Printable.statement place.deeper) = .ok texts ∧ text = braced place texts := by
  obtain ⟨padded, hpadded, h⟩ := bind_eq_ok.1 h
  obtain ⟨texts, htexts, rfl⟩ := mapM_mapped hpadded
  exact ⟨texts, htexts, (Except.ok.inj h).symm⟩

/-- The statements of a block that is not empty are printed in braces. -/
theorem block_printed {block : Fields Json} {items : List Json} (hitems : Fields.get? "body" block = some (.arr items))
    (hne : items ≠ []) (place : Place) :
    Printable.block place (printed block) = Printable.inBraces place (items.map printable) := by
  have hlayer : layer (printable (.arr items)) = .arr (items.map printable) := Json.layer_annotate_arr Printable.forms items
  have htruthy : (Layer.arr (items.map printable)).truthy = true := by
    cases items with
    | nil => exact absurd rfl hne
    | cons x xs => rfl
  rw [Printable.block, optional_printed hitems (by simp), ok_bind]
  simp only [hlayer, htruthy, if_true, Layer.elements, ok_bind]

end Fields

/-! ## Expressions -/

/-- The node is printed as the pieces of the expression. -/
structure Prints (j : Json) (e : Expression) : Prop where
  fragment : ∀ place : Place, place.inHead = false →
    Printable.fragment place (printable j) = .ok ⟨.str (Piece.textOf e.pieces), e.precedence⟩
  callInside : Printable.callInside (printable j) = .ok e.callInside

namespace Prints

variable {j : Json} {e : Expression} {place : Place}

theorem expression (h : Prints j e) (hplace : place.inHead = false) (required : Precedence) :
    Printable.expression place required (printable j) = .ok (.str (Piece.textOf (e.operand required))) := by
  rw [Printable.expression, h.fragment place hplace, ok_bind, Expression.operand, Piece.textOf_enclosed]
  simp only [asText, ok_bind, pure_eq_ok, decide_eq_true_eq]
  split <;> rfl

theorem expressionText (h : Prints j e) (hplace : place.inHead = false) (required : Precedence) :
    Printable.expressionText place required (printable j) = .ok (Piece.textOf (e.operand required)) := by
  rw [Printable.expressionText, h.expression hplace]
  rfl

end Prints

/-! ## Each type of node -/

namespace Prints

open Piece

variable {fields : Fields Json}

theorem callInside_other {type : String} (htype : Fields.type? fields = some type)
    (h : type ∉ ["MemberExpression", "CallExpression", "TaggedTemplateExpression"]) :
    Printable.callInside (printable (.obj fields)) = .ok false := by
  rw [callInside_printed, Printable.chainHasCall]
  split
  · rfl
  · rw [hasTypeIn_printed htype, ok_bind, List.contains_eq_mem, decide_eq_false h]
    rfl

theorem truthy_printed {type : String} (htype : Fields.type? fields = some type) : (printed fields).truthy = true := by
  cases fields with
  | nil => cases htype
  | cons f rest => rfl

theorem name {text : String} (htype : Fields.type? fields = some "Identifier")
    (hname : Fields.get? "name" fields = some (.str text)) : Prints (.obj fields) (.name text) where
  fragment place _ := by
    have hfragment : Printable.fragment place (printable (.obj fields)) =
        (do return ⟨(← (printed fields).require "name").source, .primary⟩) := fragment_printed htype place
    rw [hfragment, require_printed hname, ok_bind, Json.source_annotate]
    simp [Expression.pieces, Piece.text, Token.text, Expression.precedence]
  callInside := callInside_other htype (by decide)

theorem this (htype : Fields.type? fields = some "ThisExpression") : Prints (.obj fields) .this where
  fragment place _ := by
    rw [fragment_printed htype]
    rfl
  callInside := callInside_other htype (by decide)

theorem literal_printed {raw : String} (hraw : Fields.get? "raw" fields = some (.str raw)) :
    Printable.literal (printed fields) = .ok (.str raw) := by
  rw [Printable.literal, optional_printed hraw (by simp), ok_bind]
  rfl

theorem literal_fragment {raw : String} (htype : Fields.type? fields = some "Literal")
    (hraw : Fields.get? "raw" fields = some (.str raw)) (place : Place) :
    Printable.fragment place (printable (.obj fields)) = .ok ⟨.str raw, .primary⟩ := by
  have hfragment : Printable.fragment place (printable (.obj fields)) =
      (do return ⟨← Printable.literal (printed fields), .primary⟩) := fragment_printed htype place
  rw [hfragment, literal_printed hraw]
  rfl

theorem number {raw : String} (htype : Fields.type? fields = some "Literal")
    (hraw : Fields.get? "raw" fields = some (.str raw)) : Prints (.obj fields) (.number raw) where
  fragment place _ := by
    rw [literal_fragment htype hraw]
    simp [Expression.pieces, Piece.text, Token.text, Expression.precedence]
  callInside := callInside_other htype (by decide)

theorem string {raw : String} (htype : Fields.type? fields = some "Literal")
    (hraw : Fields.get? "raw" fields = some (.str raw)) : Prints (.obj fields) (.string raw) where
  fragment place _ := by
    rw [literal_fragment htype hraw]
    simp [Expression.pieces, Piece.text, Token.text, Expression.precedence]
  callInside := callInside_other htype (by decide)

theorem unary {operator : UnaryOperator} {argument : Json} {e : Expression}
    (htype : Fields.type? fields = some "UnaryExpression")
    (hoperator : Fields.get? "operator" fields = some (.str operator.token.text))
    (hargument : Fields.get? "argument" fields = some argument) (h : Prints argument e) :
    Prints (.obj fields) (.unary operator e) where
  fragment place hplace := by
    have hfragment : Printable.fragment place (printable (.obj fields)) =
        (do return Printable.fragmentWith .unary (← Printable.unary place (printed fields))) := fragment_printed htype place
    rw [hfragment, Printable.unary, require_printed hoperator, ok_bind, require_printed hargument, ok_bind,
      h.expression hplace, ok_bind, Json.source_annotate, Expression.pieces_unary]
    simp only [asText, ok_bind]
    split
    · next hspace =>
      have hapart : operator.apart (textOf (e.operand .unary)) = true := hspace
      simp [hapart, Piece.text, Printable.fragmentWith, Expression.precedence, String.append_assoc]
    · next hspace =>
      have hapart : ¬ operator.apart (textOf (e.operand .unary)) = true := hspace
      simp [hapart, Piece.text, Printable.fragmentWith, Expression.precedence]
  callInside := callInside_other htype (by decide)

theorem update {operator : UpdateOperator} {before : Bool} {argument : Json} {e : Expression}
    (htype : Fields.type? fields = some "UpdateExpression")
    (hoperator : Fields.get? "operator" fields = some (.str operator.token.text))
    (hfront : Fields.get? "prefix" fields = some (.bool before))
    (hargument : Fields.get? "argument" fields = some argument) (h : Prints argument e) :
    Prints (.obj fields) (.update operator before e) where
  fragment place hplace := by
    have hfragment : Printable.fragment place (printable (.obj fields)) = Printable.update place (printed fields) :=
      fragment_printed htype place
    rw [hfragment, Printable.update, require_printed hargument, ok_bind, h.expression hplace, ok_bind, flag_printed hfront,
      ok_bind, require_printed hoperator, ok_bind, Json.source_annotate, Expression.pieces_update]
    cases before <;> simp [asText, Piece.text, Printable.fragmentWith, Expression.precedence]
  callInside := callInside_other htype (by decide)

/-- The printer knows every operator by the rule of the grammar that it belongs to. -/
theorem operatorPrecedence (operator : BinaryOperator) :
    Printable.operatorPrecedence (.str operator.token.text) = .ok (Syntax.level operator) := by
  cases operator <;> rfl

theorem binary {operator : BinaryOperator} {left right : Json} {l r : Expression}
    (htype : Fields.type? fields = some operator.nodeType)
    (hoperator : Fields.get? "operator" fields = some (.str operator.token.text))
    (hleft : Fields.get? "left" fields = some left) (hright : Fields.get? "right" fields = some right) (hl : Prints left l)
    (hr : Prints right r) : Prints (.obj fields) (.binary operator l r) where
  fragment place hplace := by
    have hfragment : Printable.fragment place (printable (.obj fields)) = Printable.binary place (printed fields) := by
      rw [fragment_printed htype place]
      cases operator <;> rfl
    have hpower : ((Json.str operator.token.text).string? == some "**") = decide (operator = .power) := by
      cases operator <;> decide
    rw [hfragment, Printable.binary, require_printed hoperator, ok_bind, Json.source_annotate, Expression.pieces_binary]
    simp only [operatorPrecedence, ok_bind, hpower, require_printed hleft, require_printed hright, decide_eq_true_eq,
      hl.expression hplace, hr.expression hplace, asText, hplace, Bool.and_false, Bool.false_eq_true, if_false]
    simp [Printable.fragmentWith, Expression.precedence, BinaryOperator.leftRequired, BinaryOperator.rightRequired,
      Piece.text, String.append_assoc]
  callInside := callInside_other htype (by cases operator <;> decide)

theorem conditional {test consequent alternate : Json} {t y n : Expression}
    (htype : Fields.type? fields = some "ConditionalExpression") (htest : Fields.get? "test" fields = some test)
    (hconsequent : Fields.get? "consequent" fields = some consequent)
    (halternate : Fields.get? "alternate" fields = some alternate) (ht : Prints test t) (hy : Prints consequent y)
    (hn : Prints alternate n) : Prints (.obj fields) (.conditional t y n) where
  fragment place hplace := by
    have hfragment : Printable.fragment place (printable (.obj fields)) =
        (do return Printable.fragmentWith .conditional (← Printable.conditional place (printed fields))) :=
      fragment_printed htype place
    rw [hfragment, Printable.conditional, require_printed htest, ok_bind, ht.expressionText hplace, ok_bind,
      require_printed hconsequent, ok_bind, hy.expressionText hplace, ok_bind, require_printed halternate, ok_bind,
      hn.expressionText hplace, ok_bind, Expression.pieces_conditional]
    refine congrArg (fun text => Except.ok (Fragment.mk (.str text) .conditional)) (String.toList_inj.1 ?_)
    simp [Piece.text, Token.text]
  callInside := callInside_other htype (by decide)

theorem assign {operator : AssignOperator} {left right : Json} {target value : Expression}
    (htype : Fields.type? fields = some "AssignmentExpression")
    (hoperator : Fields.get? "operator" fields = some (.str operator.token.text))
    (hleft : Fields.get? "left" fields = some left) (hright : Fields.get? "right" fields = some right)
    (hpattern : (layer (printable left)).hasTypeIn ["ObjectPattern", "ArrayPattern"] = .ok false)
    (ht : Prints left target) (hv : Prints right value) : Prints (.obj fields) (.assign operator target value) where
  fragment place hplace := by
    have hfragment : Printable.fragment place (printable (.obj fields)) =
        (do return Printable.fragmentWith .assign (← Printable.assignment place (printed fields))) :=
      fragment_printed htype place
    rw [hfragment, Printable.assignment, require_printed hleft, ok_bind, hpattern, ok_bind, Expression.pieces_assign]
    simp only [Bool.false_eq_true, if_false, ht.expressionText hplace, ok_bind, textOf_printed hoperator,
      require_printed hright, hv.expressionText hplace, pure_eq_ok]
    simp [Piece.text, Printable.fragmentWith, Expression.precedence, String.append_assoc]
  callInside := callInside_other htype (by decide)

/-! ### Lists -/

theorem joined_texts (texts : List String) : joined (texts.map .str) = .ok (", ".intercalate texts) := by
  have htexts : (texts.map Json.str).mapM asText = .ok texts := by
    induction texts with
    | nil => rfl
    | cons text rest ih => rw [List.map_cons, List.mapM_cons, asText, ok_bind, ih]; rfl
  rw [joined, htexts]
  rfl

/-- Parts with commas between them. -/
theorem joined_rows {α : Type} (row : α → List Piece) (xs : List α) :
    joined (xs.map fun x => .str (textOf (row x))) = .ok (textOf (listed (xs.map row))) := by
  rw [textOf_listed, List.map_map, ← joined_texts, List.map_map]
  rfl

theorem elements_printed {key : String} {items : List Json} (h : Fields.get? key fields = some (.arr items)) :
    (printed fields).elementsOf key = .ok (items.map printable) :=
  Json.elementsOf_annotated Printable.forms h

theorem sequence {expressions : List Json} {items : List Expression}
    (htype : Fields.type? fields = some "SequenceExpression")
    (hexpressions : Fields.get? "expressions" fields = some (.arr expressions))
    (h : List.Forall₂ Prints expressions items) : Prints (.obj fields) (.sequence items) where
  fragment place hplace := by
    have hfragment : Printable.fragment place (printable (.obj fields)) =
        (do return Printable.fragmentWith .sequence (← Printable.sequence place (printed fields))) :=
      fragment_printed htype place
    have hitems := mapM_printed (f := Printable.expression place .assign)
      (g := fun e => Json.str (textOf (e.operand .assign))) (h.imp fun _ _ hj => hj.expression hplace .assign)
    rw [hfragment, Printable.sequence, require_printed hexpressions, ok_bind, Json.layer_annotate_arr, Layer.elements_arr,
      ok_bind, hitems, ok_bind, joined_rows, ok_bind, Expression.pieces_sequence]
    rfl
  callInside := callInside_other htype (by decide)

end Prints

/-- The value is an element of an array or an argument, and is printed as its pieces; a hole is null. -/
inductive PrintsElement : Json → Element Expression → Prop
  | hole : PrintsElement .null .hole
  | node {fields : Fields Json} {x : Element Expression} : x ≠ .hole → (∀ place : Place, place.inHead = false →
      Printable.expression place .assign (printable (.obj fields)) = .ok (.str (Piece.textOf (Expression.rowOf x)))) →
    PrintsElement (.obj fields) x

namespace PrintsElement

open Piece

theorem item {fields : Fields Json} {e : Expression} (h : Prints (.obj fields) e) : PrintsElement (.obj fields) (.item e) :=
  .node (by simp) fun place hplace => by rw [h.expression hplace, Expression.rowOf_item]

theorem spread {fields : Fields Json} {argument : Json} {e : Expression} (htype : Fields.type? fields = some "SpreadElement")
    (hargument : Fields.get? "argument" fields = some argument) (h : Prints argument e) :
    PrintsElement (.obj fields) (.spread e) := by
  refine .node (by simp) fun place hplace => ?_
  have hfragment : Printable.fragment place (printable (.obj fields)) =
      (do return Printable.fragmentWith .assign (← Printable.spread place (printed fields))) := fragment_printed htype place
  rw [Printable.expression, hfragment, Printable.spread, require_printed hargument, ok_bind, h.expressionText hplace,
    Expression.rowOf_spread]
  simp [Printable.fragmentWith, Piece.text, Token.text]

theorem isNull {j : Json} {x : Element Expression} (h : PrintsElement j x) (hx : x ≠ .hole) :
    (layer (printable j)).isNull = false := by
  cases h with
  | hole => exact absurd rfl hx
  | node _ _ => rw [layer_printable]; rfl

theorem expression {j : Json} {x : Element Expression} (h : PrintsElement j x) (hx : x ≠ .hole) {place : Place}
    (hplace : place.inHead = false) :
    Printable.expression place .assign (printable j) = .ok (.str (textOf (Expression.rowOf x))) := by
  cases h with
  | hole => exact absurd rfl hx
  | node _ h => exact h place hplace

theorem rows {values : List Json} {items : List (Element Expression)} (h : List.Forall₂ PrintsElement values items)
    (hholes : .hole ∉ items) {place : Place} (hplace : place.inHead = false) :
    List.Forall₂ (fun j x => Printable.expression place .assign (printable j) = .ok (.str (textOf (Expression.rowOf x))))
      values items := by
  induction h with
  | nil => exact .nil
  | cons hx _ ih =>
    exact .cons (hx.expression (fun hhole => hholes (hhole ▸ List.mem_cons_self ..)) hplace)
      (ih fun hmem => hholes (List.mem_cons_of_mem _ hmem))

end PrintsElement

namespace Prints

open Piece

variable {fields : Fields Json}

/-- Arguments in their parentheses. -/
theorem arguments_printed {arguments : List Json} {items : List (Element Expression)} {place : Place}
    (hplace : place.inHead = false) (harguments : Fields.get? "arguments" fields = some (.arr arguments))
    (h : List.Forall₂ PrintsElement arguments items) (hholes : .hole ∉ items) :
    Printable.arguments place (printed fields) = .ok ("(" ++ textOf (listed (items.map Expression.rowOf)) ++ ")") := by
  rw [Printable.arguments, elements_printed harguments, ok_bind, mapM_printed (PrintsElement.rows h hholes hplace), ok_bind, joined_rows]
  rfl

theorem call {callee : Json} {arguments : List Json} {c : Expression} {items : List (Element Expression)}
    (htype : Fields.type? fields = some "CallExpression") (hcallee : Fields.get? "callee" fields = some callee)
    (harguments : Fields.get? "arguments" fields = some (.arr arguments)) (hc : Prints callee c)
    (h : List.Forall₂ PrintsElement arguments items) (hholes : .hole ∉ items) :
    Prints (.obj fields) (.call c items) where
  fragment place hplace := by
    have hfragment : Printable.fragment place (printable (.obj fields)) =
        (do return Printable.fragmentWith .call (← Printable.call place (printed fields))) := fragment_printed htype place
    rw [hfragment, Printable.call, require_printed hcallee, ok_bind, hc.expression hplace, ok_bind,
      arguments_printed hplace harguments h hholes, Expression.pieces_call]
    simp [asText, Piece.text, Token.text, Printable.fragmentWith, Expression.precedence, String.append_assoc]
  callInside := by
    rw [callInside_printed, Printable.chainHasCall, truthy_printed htype]
    simp [hasTypeIn_printed htype, hasType_printed htype, Expression.callInside]

theorem construct {callee : Json} {arguments : List Json} {c : Expression} {items : List (Element Expression)}
    (htype : Fields.type? fields = some "NewExpression") (hcallee : Fields.get? "callee" fields = some callee)
    (harguments : Fields.get? "arguments" fields = some (.arr arguments)) (hc : Prints callee c)
    (h : List.Forall₂ PrintsElement arguments items) (hholes : .hole ∉ items) :
    Prints (.obj fields) (.construct c items) where
  fragment place hplace := by
    have hfragment : Printable.fragment place (printable (.obj fields)) =
        (do return Printable.fragmentWith .call (← Printable.construct place (printed fields))) :=
      fragment_printed htype place
    rw [hfragment, Printable.construct, require_printed hcallee, ok_bind, hc.callInside, ok_bind,
      Expression.pieces_construct]
    simp only [hc.expressionText hplace, ok_bind, pure_eq_ok, arguments_printed hplace harguments h hholes]
    cases hinside : c.callInside with
    | true =>
      rw [if_pos rfl, Bool.true_or]
      refine congrArg (fun text => Except.ok (Fragment.mk (.str text) .call)) (String.toList_inj.1 ?_)
      simp [Piece.text, Token.text, enclosed, Expression.operand, Precedence.sequence]
    | false =>
      rw [if_neg (by simp), Bool.false_or, ← Expression.operand]
      refine congrArg (fun text => Except.ok (Fragment.mk (.str text) .call)) (String.toList_inj.1 ?_)
      simp [Piece.text, Token.text]
  callInside := callInside_other htype (by decide)

theorem callInside_member {object : Json} {o : Expression} (htype : Fields.type? fields = some "MemberExpression")
    (hobject : Fields.get? "object" fields = some object) (hnode : ∃ inner, object = .obj inner ∧ inner ≠ [])
    (ho : Prints object o) : Printable.callInside (printable (.obj fields)) = .ok o.callInside := by
  obtain ⟨inner, rfl, hinner⟩ := hnode
  have htruthy : (layer (printable (.obj inner))).truthy = true := by
    rw [layer_printable]
    cases inner with
    | nil => exact absurd rfl hinner
    | cons f rest => rfl
  rw [callInside_printed, Printable.chainHasCall, truthy_printed htype]
  simp [hasTypeIn_printed htype, hasType_printed htype, optional_printed hobject, htruthy, ho.callInside, Option.filter]

/-- The object of a member: a number that would swallow the point is put in parentheses. -/
theorem textOf_object (o : Expression) :
    (if o.bareNumber = true then "(" ++ textOf (o.operand .call) ++ ")" else textOf (o.operand .call)) =
      textOf (enclosed (o.bareNumber || o.precedence < Precedence.call) o.pieces) := by
  cases hbare : o.bareNumber with
  | true =>
    have hprimary : ¬ o.precedence < Precedence.call := by
      cases o with
      | number raw => simp [Expression.precedence, Precedence.primary, Precedence.call]
      | _ => cases hbare
    rw [if_pos rfl, Bool.true_or, textOf_enclosed, if_pos rfl, Expression.operand, decide_eq_false hprimary]
    rfl
  | false => rw [if_neg (by simp), Bool.false_or, Expression.operand]

theorem dot {property : Fields Json} {object : Json} {o : Expression} {text : String}
    (htype : Fields.type? fields = some "MemberExpression") (hcomputed : Fields.get? "computed" fields = some (.bool false))
    (hobject : Fields.get? "object" fields = some object) (hproperty : Fields.get? "property" fields = some (.obj property))
    (hname : Fields.get? "name" property = some (.str text)) (hnode : ∃ inner, object = .obj inner ∧ inner ≠ [])
    (hbare : Printable.isBareNumber (layer (printable object)) (.str (textOf (o.operand .call))) = .ok o.bareNumber)
    (ho : Prints object o) : Prints (.obj fields) (.dot o text) where
  fragment place hplace := by
    have hfragment : Printable.fragment place (printable (.obj fields)) =
        (do return Printable.fragmentWith .member (← Printable.memberAccess place (printed fields))) :=
      fragment_printed htype place
    have hproperty' : Printable.nameOf "property" (printed fields) = .ok text := by
      rw [Printable.nameOf, require_printed hproperty, ok_bind, layer_printable]
      exact textOf_printed hname
    rw [hfragment, Printable.memberAccess, require_printed hobject, ok_bind, ho.expression hplace, ok_bind, hbare, ok_bind,
      Expression.pieces_dot]
    simp only [asText, ok_bind, textOf_object, flag_printed hcomputed, hproperty', Bool.false_eq_true, if_false, pure_eq_ok]
    simp [Piece.text, Token.text, Printable.fragmentWith, Expression.precedence, String.append_assoc]
  callInside := by rw [callInside_member htype hobject hnode ho]; rfl

theorem index {object property : Json} {o p : Expression}
    (htype : Fields.type? fields = some "MemberExpression") (hcomputed : Fields.get? "computed" fields = some (.bool true))
    (hobject : Fields.get? "object" fields = some object) (hproperty : Fields.get? "property" fields = some property)
    (hnode : ∃ inner, object = .obj inner ∧ inner ≠ [])
    (hbare : Printable.isBareNumber (layer (printable object)) (.str (textOf (o.operand .call))) = .ok o.bareNumber)
    (ho : Prints object o) (hp : Prints property p) : Prints (.obj fields) (.index o p) where
  fragment place hplace := by
    have hfragment : Printable.fragment place (printable (.obj fields)) =
        (do return Printable.fragmentWith .member (← Printable.memberAccess place (printed fields))) :=
      fragment_printed htype place
    rw [hfragment, Printable.memberAccess, require_printed hobject, ok_bind, ho.expression hplace, ok_bind, hbare, ok_bind,
      Expression.pieces_index]
    simp only [asText, ok_bind, textOf_object, flag_printed hcomputed, if_true, require_printed hproperty,
      hp.expressionText hplace, pure_eq_ok]
    simp [Piece.text, Token.text, Printable.fragmentWith, Expression.precedence, String.append_assoc, Expression.operand,
      Precedence.sequence, enclosed]
  callInside := by rw [callInside_member htype hobject hnode ho]; rfl

/-- The comma that a hole at the end of an array needs. -/
theorem holeText {place : Place} {elements : List Json} {items : List (Element Expression)} (hplace : place.inHead = false)
    (h : List.Forall₂ PrintsElement elements items) :
    List.Forall₂ (fun j x => (if (layer (printable j)).isNull = true then .ok (.str "")
      else Printable.expression place .assign (printable j)) = Except.ok (ε := Fault) (Json.str (textOf (Expression.rowOf x))))
      elements items := by
  refine h.imp fun j x hx => ?_
  cases hx with
  | hole => rfl
  | node hne hx => rw [layer_printable]; exact hx place hplace

theorem array {elements : List Json} {items : List (Element Expression)}
    (htype : Fields.type? fields = some "ArrayExpression") (helements : Fields.get? "elements" fields = some (.arr elements))
    (h : List.Forall₂ PrintsElement elements items)
    (hbegins : ∀ x ∈ items, x ≠ .hole → Begins (textOf (Expression.rowOf x))) : Prints (.obj fields) (.array items) where
  fragment place hplace := by
    have hfragment : Printable.fragment place (printable (.obj fields)) =
        (do return Printable.fragmentWith .primary (← Printable.array place (printed fields))) :=
      fragment_printed htype place
    rw [hfragment, Printable.array, elements_printed helements, ok_bind, mapM_printed (holeText hplace h), ok_bind, joined_rows,
      ok_bind, List.getLast?_map, Expression.pieces_array, Expression.endsInHole]
    cases hlast : items.getLast? with
    | none => simp [Piece.text, Token.text, Printable.fragmentWith, Expression.precedence, String.append_assoc]
    | some x =>
      by_cases hx : x = .hole
      · subst hx
        refine congrArg (fun text => Except.ok (Fragment.mk (.str text) .primary)) (String.toList_inj.1 ?_)
        simp [Piece.text, Token.text, comma]
      · have hne := (hbegins x (List.mem_of_getLast? hlast) hx).ne_empty
        cases x with
        | hole => exact absurd rfl hx
        | _ => simp [hne, Piece.text, Token.text, Printable.fragmentWith, Expression.precedence, String.append_assoc]
  callInside := callInside_other htype (by decide)

end Prints

/-- Whether the object is a bare number is found from its node and its text. -/
theorem Encodes.isBareNumber {j : Json} {e : Expression} (h : Encodes j e) :
    Printable.isBareNumber (layer (printable j)) (.str (Piece.textOf (e.operand .call))) = .ok e.bareNumber := by
  have hother : ∀ {fields : Fields Json} {type : String}, Fields.type? fields = some type → type ≠ "Literal" →
      Printable.isBareNumber (layer (printable (.obj fields))) (.str (Piece.textOf (e.operand .call))) = .ok false := by
    intro fields type htype hne
    rw [layer_printable, Printable.isBareNumber, hasType_printed htype, ok_bind, beq_false_of_ne hne]
    rfl
  cases h with
  | @number _ raw value htype hraw hvalue hnumber =>
    have htext : Piece.textOf (Expression.operand .call (.number raw)) = raw := by
      simp [Expression.operand, Expression.precedence, Precedence.primary, Precedence.call, Piece.enclosed, Expression.pieces,
        Piece.text, Token.text]
    rw [layer_printable, Printable.isBareNumber, hasType_printed htype, ok_bind, htext]
    cases value with
    | int n => rw [optional_printed hvalue (by simp)]; rfl
    | float x => rw [optional_printed hvalue (by simp)]; rfl
    | _ => cases hnumber
  | string htype hraw hvalue =>
    rw [layer_printable, Printable.isBareNumber, hasType_printed htype, ok_bind,
      optional_printed hvalue (by simp)]
    rfl
  | @binary _ operator _ _ _ _ htype => exact hother htype (by cases operator <;> decide)
  | name htype | this htype | array htype | unary htype | update htype | conditional htype | assign htype | sequence htype
  | call htype | construct htype | dot htype | index htype => exact hother htype (by decide)

/-- What stands for an expression is an object with fields. -/
theorem Encodes.node {j : Json} {e : Expression} (h : Encodes j e) : ∃ inner, j = .obj inner ∧ inner ≠ [] := by
  cases h
  all_goals exact ⟨_, rfl, by rintro rfl; contradiction⟩

/-- A target is no pattern. -/
theorem Encodes.noPattern {j : Json} {e : Expression} (h : Encodes j e) (he : e.isTarget = true) :
    (layer (printable j)).hasTypeIn ["ObjectPattern", "ArrayPattern"] = .ok false := by
  cases h with
  | name htype | dot htype | index htype => rw [layer_printable]; exact hasTypeIn_printed htype _
  | _ => cases he

/-! ## All expressions -/

theorem printsElements {values : List Json} {items : List (Element Expression)}
    (h : List.Forall₂ EncodesElement values items)
    (hitems : ∀ x ∈ items, ∀ e ∈ x.value?, ∀ j, Encodes j e → Prints j e) : List.Forall₂ PrintsElement values items := by
  induction h with
  | nil => exact .nil
  | @cons j x _ _ hx _ ih =>
    refine .cons ?_ (ih fun y hy => hitems y (List.mem_cons_of_mem _ hy))
    have hvalue := hitems x (List.mem_cons_self ..)
    cases hx with
    | hole => exact .hole
    | item hj =>
      obtain ⟨inner, rfl, -⟩ := hj.node
      exact .item (hvalue _ rfl _ hj)
    | spread htype hargument hj => exact .spread htype hargument (hvalue _ rfl _ hj)

theorem printsItems {values : List Json} {items : List Expression} (h : List.Forall₂ Encodes values items)
    (hitems : ∀ e ∈ items, ∀ j, Encodes j e → Prints j e) : List.Forall₂ Prints values items := by
  induction h with
  | nil => exact .nil
  | cons hj _ ih =>
    exact .cons (hitems _ (List.mem_cons_self ..) _ hj) (ih fun e he => hitems e (List.mem_cons_of_mem _ he))

theorem begins_rowOf {A : Alphabet} {items : List (Element Expression)} (h : ∀ x ∈ items, ∀ e ∈ x.value?, e.Valid A) :
    ∀ x ∈ items, x ≠ .hole → Begins (Piece.textOf (Expression.rowOf x)) := by
  intro x hx hne
  cases x with
  | hole => exact absurd rfl hne
  | item e => exact ((h _ hx e rfl).begins).enclosed _
  | spread e => exact Begins.sign rfl (by decide) _

/-- **The node of an expression is printed as the pieces of the expression.** -/
theorem Encodes.prints {A : Alphabet} {j : Json} {e : Expression} (h : Encodes j e) (he : e.Valid A) : Prints j e := by
  induction he generalizing j with
  | name _ _ => cases h with | name htype hname => exact .name htype hname
  | this => cases h with | this htype => exact .this htype
  | number _ => cases h with | number htype hraw => exact .number htype hraw
  | string _ => cases h with | string htype hraw => exact .string htype hraw
  | array hvalid ih =>
    cases h with
    | array htype helements hitems =>
      exact .array htype helements (printsElements hitems fun x hx e he j => ih x hx e he) (begins_rowOf hvalid)
  | unary _ ih =>
    cases h with
    | unary htype hoperator hargument hj => exact .unary htype hoperator hargument (ih hj)
  | update _ _ ih =>
    cases h with
    | update htype hoperator hfront hargument hj => exact .update htype hoperator hfront hargument (ih hj)
  | binary _ _ ihl ihr =>
    cases h with
    | binary htype hoperator hleft hright hl hr => exact .binary htype hoperator hleft hright (ihl hl) (ihr hr)
  | conditional _ _ _ iht ihy ihn =>
    cases h with
    | conditional htype htest hconsequent halternate ht hy hn =>
      exact .conditional htype htest hconsequent halternate (iht ht) (ihy hy) (ihn hn)
  | assign htarget _ _ iht ihv =>
    cases h with
    | assign htype hoperator hleft hright ht hv =>
      exact .assign htype hoperator hleft hright (ht.noPattern htarget) (iht ht) (ihv hv)
  | sequence _ _ ih =>
    cases h with
    | sequence htype hexpressions hitems =>
      exact .sequence htype hexpressions (printsItems hitems fun e he j => ih e he)
  | call _ hholes _ ihc ih =>
    cases h with
    | call htype hcallee harguments hc hitems =>
      exact .call htype hcallee harguments (ihc hc) (printsElements hitems fun x hx e he j => ih x hx e he) hholes
  | construct _ hholes _ ihc ih =>
    cases h with
    | construct htype hcallee harguments hc hitems =>
      exact .construct htype hcallee harguments (ihc hc) (printsElements hitems fun x hx e he j => ih x hx e he) hholes
  | dot _ _ ih =>
    cases h with
    | dot htype hcomputed hobject hproperty _ hname ho =>
      exact .dot htype hcomputed hobject hproperty hname ho.node ho.isBareNumber (ih ho)
  | index _ _ iho ihp =>
    cases h with
    | index htype hcomputed hobject hproperty ho hp =>
      exact .index htype hcomputed hobject hproperty ho.node ho.isBareNumber (iho ho) (ihp hp)

theorem printNode_expression {fields : Fields Json} {type : String} (htype : Fields.type? fields = some type)
    (hprogram : type ≠ "Program") (hstatement : endsWith "Statement" type = false)
    (hdeclaration : endsWith "Declaration" type = false) :
    printNode (.obj fields) = Printable.expression .top .sequence (printable (.obj fields)) := by
  unfold printNode
  simp only [layer_printable]
  rw [require_printed (Fields.get?_of_type? htype), ok_bind]
  simp only [Json.source_annotate]
  rw [hstatement, hdeclaration]
  rfl

/-- The printed text of an expression. -/
theorem Encodes.printNode {A : Alphabet} {j : Json} {e : Expression} (h : Encodes j e) (he : e.Valid A) :
    printNode j = .ok (.str (Piece.textOf e.pieces)) := by
  have hprints := (h.prints he).expression (show Place.top.inHead = false from rfl) .sequence
  cases h with
  | @binary _ operator _ _ _ _ htype =>
    rw [printNode_expression htype (by cases operator <;> decide) (by cases operator <;> decide)
      (by cases operator <;> decide)]
    exact hprints
  | name htype | this htype | number htype | string htype | array htype | unary htype | update htype | conditional htype
  | assign htype | sequence htype | call htype | construct htype | dot htype | index htype =>
    rw [printNode_expression htype (by decide) (by decide) (by decide)]
    exact hprints

end ScriptTrace
