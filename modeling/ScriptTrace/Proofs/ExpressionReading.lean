import ScriptTrace.Proofs.ExpressionPrinting
import ScriptTrace.Proofs.ExpressionRules
import ScriptTrace.Proofs.ExpressionTokens

/-!
# Printed expressions are read back

Whatever an expression stands in, its tokens are read as this expression, and reading stops where they end.

* `ReadsAt` : tokens that are an expression wherever a precedence is required;
* `Rereads` : expressions whose tokens are; one lemma for each kind of expression;
* `read_textOf` : the text of an expression is read as this expression;
* `printNode_reads` : the same of what is printed for a syntax tree.
-/

namespace ScriptTrace

open Piece Syntax

/-! ## Tokens that are an expression -/

/-- The tokens are read as the expression wherever the precedence, or a looser one, is required. -/
structure ReadsAt (ts : List Token) (e : Expression) (bound : Precedence) : Prop where
  /-- By a rule, where what follows does not go on. -/
  whole : ∀ p ≤ bound, p ≤ 16 → p ≠ 2 → ∀ rest, Stops p rest → Reads (readAt · p) (ts ++ rest) (some (e, rest))
  /-- As the first operand of operators that group to the left. -/
  first : ∀ rule, 3 ≤ rule → rule ≤ 12 → rule ≤ bound → ∀ rest, Stops (rule + 1) rest → ∀ answer,
    Reads (binaryMore · rule e) rest answer → Reads (binary · rule) (ts ++ rest) answer
  /-- As what members and calls begin with. -/
  object : 16 ≤ bound → ∀ rest answer,
    Reads (suffixes · true e) rest answer → Reads (leftHand · true) (ts ++ rest) answer

namespace ReadsAt

variable {ts : List Token} {e : Expression} {bound : Precedence}

theorem mono {bound' : Precedence} (h : ReadsAt ts e bound) (hle : bound' ≤ bound) : ReadsAt ts e bound' where
  whole p hp := h.whole p (Nat.le_trans hp hle)
  first rule hlow hhigh hrule := h.first rule hlow hhigh (Nat.le_trans hrule hle)
  object hbound := h.object (Nat.le_trans hbound hle)

/-- A first operand that binds tighter than its operators. -/
theorem first_of_next {rule : Nat} (hlow : 3 ≤ rule) (hhigh : rule ≤ 12) {rest : List Token}
    {answer : Option (Expression × List Token)} (h : Reads (readAt · (rule + 1)) (ts ++ rest) (some (e, rest)))
    (hrest : Reads (binaryMore · rule e) rest answer) : Reads (binary · rule) (ts ++ rest) answer := by
  refine Reads.then_rule (fun depth hdepth => ?_) hrest
  have hfirst : readAt (readers depth) (rule + 1) (ts ++ rest) = some (e, rest) := h depth hdepth
  rw [readAt_binary (Nat.le_succ_of_le hlow) (Nat.succ_le_succ hhigh)] at hfirst
  rw [binary, if_neg (Nat.not_lt_of_le hhigh), hfirst]
  rfl

theorem lift {p q : Precedence} {rest : List Token} (hle : p ≤ q) (hq : q ≤ 16)
    (h : Reads (readAt · q) (ts ++ rest) (some (e, rest))) (hrest : Stops p rest) :
    Reads (readAt · p) (ts ++ rest) (some (e, rest)) := fun depth hdepth =>
  readAt_lift hle hq (h depth hdepth) hrest

/-- What the rule of its own precedence reads, if that is no rule that groups to the left. -/
theorem of_own (hlow : 13 ≤ bound) (hhigh : bound ≤ 15)
    (h : ∀ rest, Stops bound rest → Reads (readAt · bound) (ts ++ rest) (some (e, rest))) : ReadsAt ts e bound where
  whole p hp _ _ rest hrest := lift hp (Nat.le_succ_of_le hhigh) (h rest (hrest.mono hp)) hrest
  first rule hrule hrule' _ rest hrest _ := by
    have hle : rule + 1 ≤ bound := Nat.le_trans (Nat.succ_le_succ hrule') hlow
    exact first_of_next hrule hrule' (lift hle (Nat.le_succ_of_le hhigh) (h rest (hrest.mono hle)) hrest)
  object hbound := absurd hbound (Nat.not_le_of_lt (Nat.lt_succ_of_le hhigh))

/-- What members and calls begin with. -/
theorem of_object (h : ∀ rest answer, Reads (suffixes · true e) rest answer → Reads (leftHand · true) (ts ++ rest) answer) :
    ReadsAt ts e bound := by
  have hown : ∀ rest, Stops 16 rest → Reads (readAt · 16) (ts ++ rest) (some (e, rest)) := fun rest hrest =>
    h rest _ fun _ _ => suffixes_stop hrest
  refine ⟨fun p _ hp _ rest hrest => lift hp (Nat.le_refl _) (hown rest (hrest.mono hp)) hrest,
    fun rule hrule hrule' _ rest hrest _ => ?_, fun _ => h⟩
  have hle : rule + 1 ≤ 16 := Nat.le_trans (Nat.succ_le_succ hrule') (by decide)
  exact first_of_next hrule hrule' (lift hle (Nat.le_refl _) (hown rest (hrest.mono hle)) hrest)

/-- What the two loosest rules but one read, which nothing is grouped under. -/
theorem of_loose {own : Precedence} (hown : own = 1 ∨ own = 2)
    (h : ∀ rest, Stops 1 rest → Reads (readAt · own) (ts ++ rest) (some (e, rest))) : ReadsAt ts e own where
  whole p hp hp' hne rest hrest := by
    have hle : p ≤ 1 := by
      have hnat : ∀ n m : Nat, m = 1 ∨ m = 2 → n ≤ m → n ≠ 2 → n ≤ 1 := by omega
      exact hnat p own hown hp hne
    exact lift hp (by rcases hown with rfl | rfl <;> decide) (h rest (hrest.mono hle)) hrest
  first rule hlow _ hle := absurd (Nat.le_trans hlow hle) (by rcases hown with rfl | rfl <;> decide)
  object hle := absurd hle (by rcases hown with rfl | rfl <;> decide)

/-- What groups to the left. -/
theorem of_first (hlow : 3 ≤ bound) (hhigh : bound ≤ 12)
    (h : ∀ rest, Stops (bound + 1) rest → ∀ answer,
      Reads (binaryMore · bound e) rest answer → Reads (binary · bound) (ts ++ rest) answer) : ReadsAt ts e bound := by
  have hown : ∀ rest, Stops bound rest → Reads (readAt · bound) (ts ++ rest) (some (e, rest)) := by
    intro rest hrest depth hdepth
    change readAt (readers depth) bound _ = _
    rw [readAt_binary hlow (Nat.le_succ_of_le hhigh)]
    exact h rest (hrest.mono (Nat.le_succ _)) _ (fun _ _ => binaryMore_stop hrest) depth hdepth
  refine ⟨fun p hp _ _ rest hrest => lift hp (Nat.le_trans hhigh (by decide)) (hown rest (hrest.mono hp)) hrest,
    fun rule hrule hrule' hle rest hrest answer hanswer => ?_, fun hle => absurd (Nat.le_trans hle hhigh) (by decide)⟩
  rcases Nat.lt_or_eq_of_le hle with hlt | rfl
  · exact first_of_next hrule hrule' (lift hlt (Nat.le_trans hhigh (by decide)) (hown rest (hrest.mono hlt)) hrest) hanswer
  · exact h rest hrest answer hanswer

/-- Parentheses leave nothing. -/
theorem head_paren (h : ReadsAt ts e bound) (rest : List Token) :
    Reads head (.sign "(" :: (ts ++ .sign ")" :: rest)) (some (e, rest)) := by
  refine .of_cons fun depth hdepth => ?_
  have hinner := h.whole 0 (Nat.zero_le _) (by decide) (by decide) (.sign ")" :: rest) (Stops.none rfl rest) depth hdepth
  change expression _ (ts ++ .sign ")" :: rest) = some (e, .sign ")" :: rest) at hinner
  simp [head, primary, hinner, expect]

/-- What begins with the tokens of a head goes on behind it. -/
theorem leftHand_of_head {calls : Bool} {rest : List Token} {answer : Option (Expression × List Token)}
    (h : Reads head (ts ++ rest) (some (e, rest))) (hrest : Reads (suffixes · calls e) rest answer) :
    Reads (leftHand · calls) (ts ++ rest) answer :=
  .then_rule (fun depth hdepth => Syntax.leftHand_of_head (h depth hdepth)) hrest

end ReadsAt

/-! ## The tokens of each kind of expression -/

theorem Expression.call_le_of_isTarget {e : Expression} (h : e.isTarget = true) : Precedence.call ≤ e.precedence := by
  cases e with
  | name _ => exact (by decide : Precedence.call ≤ Precedence.primary)
  | dot _ _ | index _ _ => exact (by decide : Precedence.call ≤ Precedence.member)
  | _ => cases h

/-- The tokens of the expression are read as the expression. -/
structure Rereads (e : Expression) : Prop where
  reads : ReadsAt (tokensOf e.pieces) e e.precedence
  member : Precedence.call ≤ e.precedence → e.callInside = false → ∀ rest answer,
    Reads (suffixes · false e) rest answer → Reads (leftHand · false) (tokensOf e.pieces ++ rest) answer

theorem tokensOf_enclosed (need : Bool) (ps : List Piece) : tokensOf (enclosed need ps) =
    if need then .sign "(" :: tokensOf ps ++ [.sign ")"] else tokensOf ps := by
  cases need <;> simp [enclosed]

namespace Rereads

variable {e : Expression}

/-- In parentheses, where there is need, an expression stands anywhere. -/
theorem within {bound : Precedence} {need : Bool} (h : Rereads e) (hneed : need = false → bound ≤ e.precedence) :
    ReadsAt (tokensOf (enclosed need e.pieces)) e bound := by
  rw [tokensOf_enclosed]
  cases need with
  | true =>
    refine .of_object fun rest _ => ReadsAt.leftHand_of_head ?_
    simpa using h.reads.head_paren rest
  | false => exact h.reads.mono (hneed rfl)

theorem operand (h : Rereads e) (required : Precedence) : ReadsAt (tokensOf (e.operand required)) e required :=
  h.within fun hneed => Nat.le_of_not_lt (of_decide_eq_false hneed)

theorem of_head (h : ∀ rest, Reads head (tokensOf e.pieces ++ rest) (some (e, rest))) : Rereads e where
  reads := .of_object fun rest _ => ReadsAt.leftHand_of_head (h rest)
  member _ _ rest _ := ReadsAt.leftHand_of_head (h rest)

/-- What binds less than a call is no name of a constructor. -/
theorem of_loose {own : Precedence} (hown : e.precedence = own) (hloose : own < Precedence.call)
    (h : ReadsAt (tokensOf e.pieces) e own) : Rereads e where
  reads := hown ▸ h
  member hle := absurd (hown ▸ hle) (Nat.not_le_of_lt hloose)

theorem name {text : String} (htext : text ∉ reservedWords) : Rereads (.name text) := by
  refine of_head fun rest _ _ => ?_
  have hnew : text ≠ "new" := by rintro rfl; exact htext (by decide)
  have hthis : text ≠ "this" := by rintro rfl; exact htext (by decide)
  simp [Expression.pieces, head, primary, hnew, htext]

theorem this : Rereads .this := of_head fun rest _ _ => by simp [Expression.pieces, head, primary]

theorem number (raw : String) : Rereads (.number raw) := of_head fun rest _ _ => by simp [Expression.pieces, head, primary]

theorem string (raw : String) : Rereads (.string raw) := of_head fun rest _ _ => by simp [Expression.pieces, head, primary]

theorem unary (operator : UnaryOperator) (h : Rereads e) : Rereads (.unary operator e) := by
  refine of_loose (show _ = Precedence.unary from rfl) (by decide) (.of_own (by decide) (by decide) fun rest hrest => ?_)
  have htokens : tokensOf (Expression.unary operator e).pieces = operator.token :: tokensOf (e.operand .unary) := by
    rw [Expression.pieces_unary]
    split <;> simp
  rw [htokens]
  refine Reads.of_cons fun depth hdepth => ?_
  have hoperand := (h.operand .unary).whole 14 (Nat.le_refl _) (by decide) (by decide) rest hrest depth hdepth
  change Syntax.unary _ (tokensOf (e.operand .unary) ++ rest) = some (e, rest) at hoperand
  change Syntax.unary _ (operator.token :: (tokensOf (e.operand .unary) ++ rest)) = _
  rw [Syntax.unary, unaryOperator]
  simp [hoperand]

theorem updateBefore (operator : UpdateOperator) (htarget : e.isTarget = true) (h : Rereads e) :
    Rereads (.update operator true e) := by
  refine of_loose (show _ = Precedence.unary from rfl) (by decide) (.of_own (by decide) (by decide) fun rest hrest => ?_)
  have hunary : operator.token.operator? UnaryOperator.all UnaryOperator.token = none := by cases operator <;> rfl
  rw [Expression.pieces_update, if_pos rfl, tokensOf_token]
  refine Reads.of_cons fun depth hdepth => ?_
  have hoperand := (h.operand .postfixOp).whole 14 (by decide) (by decide) (by decide) rest hrest depth hdepth
  change Syntax.unary _ (tokensOf (e.operand .postfixOp) ++ rest) = some (e, rest) at hoperand
  change Syntax.unary _ (operator.token :: (tokensOf (e.operand .postfixOp) ++ rest)) = _
  rw [Syntax.unary, hunary]
  change update _ _ = _
  rw [update, updateOperator]
  simp [hoperand, htarget]

theorem updateAfter (operator : UpdateOperator) (htarget : e.isTarget = true) (h : Rereads e) :
    Rereads (.update operator false e) := by
  refine of_loose (show _ = Precedence.postfixOp from rfl) (by decide) (.of_own (by decide) (by decide) fun rest _ => ?_)
  have hcall := Expression.call_le_of_isTarget htarget
  have hplain : e.operand .postfixOp = e.pieces := by
    rw [Expression.operand, decide_eq_false (Nat.not_lt_of_le (Nat.le_trans (by decide) hcall))]
    rfl
  rw [Expression.pieces_update, if_neg (by simp), hplain]
  simp only [tokensOf_append, tokensOf_token, tokensOf_nil, List.append_assoc, List.cons_append, List.nil_append]
  intro depth hdepth
  have hobject := h.reads.whole 16 hcall (Nat.le_refl _) (by decide) (operator.token :: rest)
    (Stops.cons (continues_update operator) (by decide) rest) depth hdepth
  change leftHand _ true _ = _ at hobject
  have hfirst := update_of_leftHand hobject
  change update _ _ = _
  rw [update.eq_def]
  split
  · next hnil => simp at hnil
  · next t more heq =>
    rw [hfirst t more heq]
    simp only [← heq, hobject]
    simp [updateOperator, htarget]

theorem binary {left right : Expression} (operator : BinaryOperator) (hoperator : operator ≠ .power) (hl : Rereads left)
    (hr : Rereads right) : Rereads (.binary operator left right) := by
  have hlow : 3 ≤ level operator := by cases operator <;> decide
  have hhigh : level operator ≤ 12 := by cases operator <;> first | exact absurd rfl hoperator | decide
  refine of_loose (show _ = level operator from rfl) (level_lt operator)
    (.of_first hlow hhigh fun rest hrest answer hanswer => ?_)
  have hrequired : operator.leftRequired = level operator ∧ operator.rightRequired = level operator + 1 := by
    simp [BinaryOperator.leftRequired, BinaryOperator.rightRequired, hoperator]
  rw [Expression.pieces_binary, hrequired.1, hrequired.2]
  simp only [tokensOf_append, tokensOf_space, tokensOf_token, List.append_assoc, List.cons_append]
  refine (hl.operand (level operator)).first _ hlow hhigh (Nat.le_refl _) _
    (Stops.cons (continues_binary operator) (Nat.lt_succ_self _) _) _ (.of_cons fun depth hdepth => ?_)
  have hright := (hr.operand (level operator + 1)).whole _ (Nat.le_refl _)
    (Nat.le_trans (Nat.succ_le_succ hhigh) (by decide)) (ne_two (Nat.le_succ_of_le hlow)) rest hrest depth hdepth
  change readAt _ (level operator + 1) _ = _ at hright
  rw [readAt_binary (Nat.le_succ_of_le hlow) (Nat.succ_le_succ hhigh)] at hright
  have hmore := hanswer depth (Nat.le_trans (by simp) hdepth)
  change binaryMore _ (level operator) _ (operator.token :: (tokensOf (right.operand (level operator + 1)) ++ rest)) = _
  rw [binaryMore, binaryOperator]
  simpa [hright] using hmore

theorem power {left right : Expression} (hl : Rereads left) (hr : Rereads right) : Rereads (.binary .power left right) := by
  refine of_loose (show _ = 13 from rfl) (by decide) (.of_own (by decide) (by decide) fun rest hrest => ?_)
  have hrequired : BinaryOperator.power.leftRequired = Precedence.postfixOp ∧ BinaryOperator.power.rightRequired = 13 :=
    ⟨rfl, rfl⟩
  rw [Expression.pieces_binary, hrequired.1, hrequired.2]
  simp only [tokensOf_append, tokensOf_space, tokensOf_token, List.append_assoc, List.cons_append]
  refine Reads.of_token _ fun depth hdepth => ?_
  have hleft := ((hl.operand .postfixOp).whole 15 (by decide) (by decide) (by decide)
    (.sign "**" :: (tokensOf (right.operand 13) ++ rest)) (Stops.cons (continues_binary .power) (by decide) _)).within
    depth hdepth
  have hright := (hr.operand 13).whole 13 (by decide) (by decide) (by decide) rest hrest depth
    (by simp at hdepth ⊢; omega)
  have hbegins := noUnary_of_update hleft
  have hunary := unary_lift hleft
  change readAt _ 13 _ = _ at hright
  change readAt _ 13 _ = _
  rw [readAt_binary (by decide) (by decide), Syntax.binary, if_pos (by decide)] at hright ⊢
  rw [Syntax.power, show BinaryOperator.power.token = .sign "**" from rfl, hunary]
  simp [hbegins, hright]

theorem conditional {test yes no : Expression} (ht : Rereads test) (hy : Rereads yes) (hn : Rereads no) :
    Rereads (.conditional test yes no) := by
  refine of_loose (show _ = Precedence.conditional from rfl) (by decide) (.of_loose (.inr rfl) fun rest hrest => ?_)
  rw [Expression.pieces_conditional]
  simp only [tokensOf_append, tokensOf_space, tokensOf_token, List.append_assoc, List.cons_append]
  refine Reads.of_token _ fun depth hdepth => ?_
  have hno := (hn.operand .assign).whole 1 (Nat.le_refl _) (by decide) (by decide) rest hrest depth
    (by simp at hdepth ⊢; omega)
  have hyes := (hy.operand .assign).whole 1 (Nat.le_refl _) (by decide) (by decide)
    (.sign ":" :: (tokensOf (no.operand .assign) ++ rest)) (Stops.none rfl _) depth (by simp at hdepth ⊢; omega)
  have htest := ((ht.operand (Precedence.conditional + 1)).whole 3 (Nat.le_refl _) (by decide) (by decide)
    (.sign "?" :: (tokensOf (yes.operand .assign) ++ .sign ":" :: (tokensOf (no.operand .assign) ++ rest)))
    (Stops.cons (q := 2) rfl (by decide) _)).within depth hdepth
  change assignment _ _ = _ at hno hyes
  change Syntax.binary _ 3 _ = _ at htest
  change Syntax.conditional _ _ = _
  rw [Syntax.conditional, htest]
  simp [hyes, expect, hno]

theorem assign {target value : Expression} (operator : AssignOperator) (htarget : target.isTarget = true)
    (ht : Rereads target) (hv : Rereads value) : Rereads (.assign operator target value) := by
  refine of_loose (show _ = Precedence.assign from rfl) (by decide) (.of_loose (.inl rfl) fun rest hrest => ?_)
  rw [Expression.pieces_assign]
  simp only [tokensOf_append, tokensOf_space, tokensOf_token, List.append_assoc, List.cons_append]
  refine Reads.of_token _ fun depth hdepth => ?_
  have hvalue := (hv.operand .assign).whole 1 (Nat.le_refl _) (by decide) (by decide) rest hrest depth
    (by simp at hdepth ⊢; omega)
  have hstops : ∀ p, 1 < p → Stops p (operator.token :: (tokensOf (value.operand .assign) ++ rest)) :=
    fun p hp => Stops.cons (continues_assign operator) hp _
  have hbinary := ((ht.operand .call).whole 3 (by decide) (by decide) (by decide) _ (hstops 3 (by decide))).within
    depth hdepth
  have htest := conditional_lift hbinary (hstops 2 (by decide))
  change assignment _ _ = _ at hvalue
  change assignment _ _ = _
  rw [assignment, htest]
  simp [assignOperator, htarget, hvalue]

end Rereads

/-! ### Lists -/

theorem tokensOf_listed (row : List Piece) (rows : List (List Piece)) :
    tokensOf (listed (row :: rows)) = tokensOf row ++ rows.flatMap fun r => .sign "," :: tokensOf r := by
  induction rows generalizing row with
  | nil => simp [listed]
  | cons other rows ih =>
    rw [listed, List.intercalate_cons_cons, ← listed, tokensOf_append, tokensOf_append, ih, List.flatMap_cons]
    simp [comma]

/-- Behind a list that goes on, or ends, no assignment goes on. -/
theorem stops_rows (rows : List (List Piece)) {rest : List Token} (hrest : Stops 1 rest) :
    Stops 1 ((rows.flatMap fun r => Token.sign "," :: tokensOf r) ++ rest) := by
  cases rows with
  | nil => exact hrest
  | cons row rows => exact Stops.cons (q := 0) rfl (by decide) _

namespace Rereads

variable {e : Expression}

theorem assignment (h : Rereads e) {rest : List Token} (hrest : Stops 1 rest) :
    Reads Syntax.assignment (tokensOf (e.operand .assign) ++ rest) (some (e, rest)) :=
  (h.operand .assign).whole 1 (Nat.le_refl _) (by decide) (by decide) rest hrest

theorem moreItems {items : List Expression} (h : ∀ e ∈ items, Rereads e) {rest : List Token} (hrest : Stops 0 rest) :
    Reads Syntax.moreItems (((items.map (Expression.operand .assign)).flatMap fun r => .sign "," :: tokensOf r) ++ rest)
      (some (items, rest)) := by
  induction items with
  | nil => exact fun _ _ => moreItems_stop hrest
  | cons e items ih =>
    rw [List.map_cons, List.flatMap_cons, List.cons_append, List.cons_append, List.append_assoc]
    refine .of_cons fun depth hdepth => ?_
    have hitem := (h e (List.mem_cons_self ..)).assignment (stops_rows _ (hrest.mono (by decide))) depth hdepth
    have hitems := ih (fun e he => h e (List.mem_cons_of_mem _ he)) depth (Nat.le_trans (by simp) hdepth)
    rw [Syntax.moreItems]
    simp [hitem, hitems]

theorem sequence {items : List Expression} (hlength : 2 ≤ items.length) (h : ∀ e ∈ items, Rereads e) :
    Rereads (.sequence items) := by
  cases items with
  | nil => cases hlength
  | cons first items =>
    have hmore : items ≠ [] := by
      rintro rfl
      exact absurd hlength (by simp)
    refine of_loose (show _ = Precedence.sequence from rfl) (by decide) ⟨fun p hp _ _ rest hrest => ?_,
      fun rule hlow _ hle => absurd (Nat.le_trans hlow hle) (by decide), fun hle => absurd hle (by decide)⟩
    obtain rfl : p = 0 := Nat.le_zero.1 hp
    rw [Expression.pieces_sequence, List.map_cons, tokensOf_listed, List.append_assoc]
    intro depth hdepth
    have hfirst := (h first (List.mem_cons_self ..)).assignment (stops_rows _ (hrest.mono (by decide))) depth hdepth
    have hitems := moreItems (fun e he => h e (List.mem_cons_of_mem _ he)) hrest depth (Nat.le_trans (by simp) hdepth)
    change expression _ _ = _
    rw [expression, hfirst]
    simp only [Option.bind_eq_bind, Option.bind_some, hitems]
    cases items with
    | nil => exact absurd rfl hmore
    | cons second items => rfl

end Rereads

/-- No element begins with a sign that ends a list. -/
theorem element_closer {inner : Readers} {t : Token} (ht : t ∈ [.sign ")", .sign "]", .sign ","]) (ts : List Token) :
    element inner (t :: ts) = none := by
  have hcloser : t ∈ closers := by
    simp only [closers, List.mem_cons, List.not_mem_nil, or_false] at ht ⊢
    rcases ht with rfl | rfl | rfl
    all_goals simp
  have hspread : t ≠ .sign "..." := by
    rintro rfl
    exact absurd ht (by decide)
  rw [element.eq_def]
  split
  · next heq => cases heq; exact absurd rfl hspread
  · rw [assignment_closer hcloser]; rfl

/-- An element, read by itself. -/
theorem element_row {x : Element Expression} (hx : x ≠ .hole) (h : ∀ e ∈ x.value?, Rereads e) {rest : List Token}
    (hrest : Stops 1 rest) : Reads element (tokensOf (Expression.rowOf x) ++ rest) (some (x, rest)) := by
  cases x with
  | hole => exact absurd rfl hx
  | item e =>
    rw [Expression.rowOf_item]
    intro depth hdepth
    have hread := (h e rfl).assignment hrest depth hdepth
    rw [element.eq_def]
    split
    · next ts heq =>
      rw [heq, assignment_closer (by decide)] at hread
      cases hread
    · rw [hread]; rfl
  | spread e =>
    rw [Expression.rowOf_spread, tokensOf_token, List.cons_append]
    refine .of_cons fun depth hdepth => ?_
    simp [element, (h e rfl).assignment hrest depth hdepth]

/-- The first token of an element ends no list. -/
theorem not_closer_of_element {inner : Readers} {x : Element Expression} {ts rest : List Token}
    (h : element inner ts = some (x, rest)) : ∀ t ∈ [.sign ")", .sign "]", .sign ","], ∀ more, ts ≠ t :: more := by
  rintro t ht more rfl
  rw [element_closer ht] at h
  cases h

theorem moreArguments_rows {items : List (Element Expression)} (hholes : .hole ∉ items)
    (h : ∀ x ∈ items, ∀ e ∈ x.value?, Rereads e) (rest : List Token) :
    Reads moreArguments (((items.map Expression.rowOf).flatMap fun r => .sign "," :: tokensOf r) ++ .sign ")" :: rest)
      (some (items, rest)) := by
  induction items with
  | nil => exact fun _ _ => by simp [moreArguments]
  | cons x items ih =>
    rw [List.map_cons, List.flatMap_cons, List.append_assoc, List.cons_append]
    refine .of_cons fun depth hdepth => ?_
    have hx := element_row (fun hx => hholes (hx ▸ List.mem_cons_self ..)) (h x (List.mem_cons_self ..))
      (stops_rows (items.map Expression.rowOf) (Stops.none (t := .sign ")") rfl rest)) depth hdepth
    have hrest := ih (fun hmem => hholes (List.mem_cons_of_mem _ hmem)) (fun y hy => h y (List.mem_cons_of_mem _ hy)) depth
      (Nat.le_trans (by simp) hdepth)
    have hclose := not_closer_of_element hx (.sign ")") (by simp)
    rw [moreArguments.eq_def]
    split
    · next heq => simp at heq
    · next heq => exact absurd (List.cons.inj heq).2 (hclose _)
    · next heq =>
      cases heq
      simp [hx, hrest]
    · next hother => exact absurd rfl (hother _)

theorem arguments_rows {items : List (Element Expression)} (hholes : .hole ∉ items)
    (h : ∀ x ∈ items, ∀ e ∈ x.value?, Rereads e) (rest : List Token) :
    Reads arguments (.sign "(" :: (tokensOf (listed (items.map Expression.rowOf)) ++ .sign ")" :: rest))
      (some (items, rest)) := by
  cases items with
  | nil => exact fun _ _ => by simp [arguments, listed]
  | cons x items =>
    rw [List.map_cons, tokensOf_listed, List.append_assoc]
    refine .of_cons fun depth hdepth => ?_
    have hx := element_row (fun hx => hholes (hx ▸ List.mem_cons_self ..)) (h x (List.mem_cons_self ..))
      (stops_rows (items.map Expression.rowOf) (Stops.none (t := .sign ")") rfl rest)) depth hdepth
    have hrest := moreArguments_rows (fun hmem => hholes (List.mem_cons_of_mem _ hmem))
      (fun y hy => h y (List.mem_cons_of_mem _ hy)) rest depth (Nat.le_trans (by simp) hdepth)
    have hclose := not_closer_of_element hx (.sign ")") (by simp)
    rw [arguments.eq_def]
    split
    · next heq => exact absurd (List.cons.inj heq).2 (hclose _)
    · next heq =>
      cases heq
      simp [hx, hrest]
    · next hother => exact absurd rfl (hother _)

/-- The tokens between the brackets of an array. -/
def bracketed (items : List (Element Expression)) : List Token :=
  tokensOf (listed (items.map Expression.rowOf) ++ if Expression.endsInHole items then [comma] else [])

theorem bracketed_cons (x y : Element Expression) (items : List (Element Expression)) :
    bracketed (x :: y :: items) = tokensOf (Expression.rowOf x) ++ .sign "," :: bracketed (y :: items) := by
  have hlast : Expression.endsInHole (x :: y :: items) = Expression.endsInHole (y :: items) := by
    simp [Expression.endsInHole]
  rw [bracketed, hlast, List.map_cons, List.map_cons, listed, List.intercalate_cons_cons, ← listed, bracketed, List.map_cons]
  simp [comma]

/-- An array whose first element is no hole. -/
theorem elements_of_element {inner : Readers} {x : Element Expression} {items : List (Element Expression)}
    {ts rest rest' : List Token} (hx : element inner ts = some (x, rest))
    (hrest : moreElements inner rest = some (items, rest')) : elements inner ts = some (x :: items, rest') := by
  have hclose := not_closer_of_element hx
  rw [elements.eq_def]
  split
  · exact absurd rfl (hclose (.sign "]") (by simp) _)
  · exact absurd rfl (hclose (.sign ",") (by simp) _)
  · rw [hx]
    simp [hrest]

theorem elements_bracketed {items : List (Element Expression)} (h : ∀ x ∈ items, ∀ e ∈ x.value?, Rereads e)
    (rest : List Token) : Reads elements (bracketed items ++ .sign "]" :: rest) (some (items, rest)) := by
  induction items with
  | nil => exact fun _ _ => by simp [bracketed, listed, Expression.endsInHole, elements]
  | cons x items ih =>
    have hitems := ih fun y hy => h y (List.mem_cons_of_mem _ hy)
    cases items with
    | nil =>
      by_cases hx : x = .hole
      · subst hx
        have htokens : bracketed [.hole] = [.sign ","] := by
          simp [bracketed, listed, Expression.endsInHole, Expression.rowOf, comma]
        rw [htokens]
        exact .of_cons fun depth hdepth => by simp [elements]
      · have htokens : bracketed [x] = tokensOf (Expression.rowOf x) := by
          cases x with
          | hole => exact absurd rfl hx
          | _ => simp [bracketed, listed, Expression.endsInHole]
        rw [htokens]
        exact fun depth hdepth => elements_of_element
          (element_row hx (h x (List.mem_cons_self ..)) (Stops.none rfl rest) depth hdepth) (by rw [moreElements])
    | cons y items =>
      rw [bracketed_cons, List.append_assoc, List.cons_append]
      refine .of_token _ fun depth hdepth => ?_
      have hrest := hitems depth (by simp at hdepth ⊢; omega)
      by_cases hx : x = .hole
      · subst hx
        simp only [Expression.rowOf, tokensOf_nil, List.nil_append]
        rw [elements]
        simp [hrest]
      · refine elements_of_element ((element_row hx (h x (List.mem_cons_self ..))
          (Stops.cons (q := 0) rfl (by decide) _)).within depth hdepth) ?_
        simp [moreElements, hrest]

namespace Rereads

theorem array {items : List (Element Expression)} (h : ∀ x ∈ items, ∀ e ∈ x.value?, Rereads e) :
    Rereads (.array items) := by
  refine of_head fun rest => ?_
  have htokens : tokensOf (Expression.array items).pieces = .sign "[" :: bracketed items ++ [.sign "]"] := by
    rw [Expression.pieces_array, bracketed]
    simp
  rw [htokens, List.append_assoc]
  refine Reads.of_cons fun depth hdepth => ?_
  have hitems := elements_bracketed h rest depth hdepth
  simp [head, primary, hitems]

theorem call {callee : Expression} {items : List (Element Expression)} (hc : Rereads callee) (hholes : .hole ∉ items)
    (h : ∀ x ∈ items, ∀ e ∈ x.value?, Rereads e) : Rereads (.call callee items) where
  reads := by
    refine .of_object fun rest answer hanswer => ?_
    rw [Expression.pieces_call]
    simp only [tokensOf_append, tokensOf_token, tokensOf_nil, List.append_assoc, List.cons_append, List.nil_append]
    refine (hc.operand .call).object (Nat.le_refl _) _ _ (.of_cons fun depth hdepth => ?_)
    have hitems := (arguments_rows hholes h rest).within depth (Nat.succ_le_succ hdepth)
    have hsuffixes := hanswer depth (by simp at hdepth; omega)
    rw [suffixes.eq_def]
    simpa [hitems] using hsuffixes
  member _ hcall := by cases hcall

theorem construct {callee : Expression} {items : List (Element Expression)} (hc : Rereads callee) (hholes : .hole ∉ items)
    (h : ∀ x ∈ items, ∀ e ∈ x.value?, Rereads e) : Rereads (.construct callee items) := by
  refine of_head fun rest => ?_
  have hcallee : ∀ more answer, Reads (suffixes · false callee) more answer → Reads (leftHand · false) (tokensOf (enclosed
      (callee.callInside || callee.precedence < Precedence.member) callee.pieces) ++ more) answer := by
    intro more answer hanswer
    rw [tokensOf_enclosed]
    split
    · refine ReadsAt.leftHand_of_head ?_ hanswer
      simpa using hc.reads.head_paren more
    · next hneed =>
      simp only [Bool.or_eq_true, decide_eq_true_eq, not_or] at hneed
      exact hc.member (Nat.le_trans (by decide) (Nat.le_of_not_lt hneed.2)) (by simpa using hneed.1) more answer hanswer
  rw [Expression.pieces_construct]
  simp only [tokensOf_append, tokensOf_token, tokensOf_space, tokensOf_nil, List.append_assoc, List.cons_append,
    List.nil_append]
  refine Reads.of_cons fun depth hdepth => ?_
  have hstop : Reads (suffixes · false callee) (.sign "(" :: (tokensOf (listed (items.map Expression.rowOf)) ++ .sign ")" :: rest))
      (some (callee, .sign "(" :: (tokensOf (listed (items.map Expression.rowOf)) ++ .sign ")" :: rest))) :=
    fun _ _ => by simp [suffixes]
  have hread := hcallee _ _ hstop depth hdepth
  have hitems := arguments_rows hholes h rest depth (by simp at hdepth ⊢; omega)
  change leftHand _ false _ = _ at hread
  simp [head, hread, hitems]

/-- The object of a member. -/
theorem object {o : Expression} (h : Rereads o) (calls : Bool) (hcalls : calls = true ∨ o.callInside = false)
    {rest : List Token} {answer : Option (Expression × List Token)} (hanswer : Reads (suffixes · calls o) rest answer) :
    Reads (leftHand · calls)
      (tokensOf (enclosed (o.bareNumber || o.precedence < Precedence.call) o.pieces) ++ rest) answer := by
  rw [tokensOf_enclosed]
  split
  · refine ReadsAt.leftHand_of_head ?_ hanswer
    simpa using h.reads.head_paren rest
  · next hneed =>
    simp only [Bool.or_eq_true, decide_eq_true_eq, not_or] at hneed
    have hcall : Precedence.call ≤ o.precedence := Nat.le_of_not_lt hneed.2
    cases calls with
    | true => exact h.reads.object hcall rest answer hanswer
    | false => exact h.member hcall (hcalls.resolve_left (by simp)) rest answer hanswer

theorem dot {o : Expression} (h : Rereads o) (property : String) : Rereads (.dot o property) := by
  have hsuffix : ∀ calls, (calls = true ∨ o.callInside = false) → ∀ rest answer,
      Reads (suffixes · calls (.dot o property)) rest answer →
        Reads (leftHand · calls) (tokensOf (Expression.dot o property).pieces ++ rest) answer := by
    intro calls hcalls rest answer hanswer
    rw [Expression.pieces_dot]
    simp only [tokensOf_append, tokensOf_token, tokensOf_nil, List.append_assoc, List.cons_append, List.nil_append]
    refine h.object calls hcalls (.of_cons fun depth hdepth => ?_)
    have hsuffixes := hanswer depth (by simp at hdepth; omega)
    simpa [suffixes] using hsuffixes
  exact ⟨.of_object (hsuffix true (.inl rfl)), fun _ hcall => hsuffix false (.inr hcall)⟩

theorem index {o property : Expression} (h : Rereads o) (hp : Rereads property) : Rereads (.index o property) := by
  have hsuffix : ∀ calls, (calls = true ∨ o.callInside = false) → ∀ rest answer,
      Reads (suffixes · calls (.index o property)) rest answer →
        Reads (leftHand · calls) (tokensOf (Expression.index o property).pieces ++ rest) answer := by
    intro calls hcalls rest answer hanswer
    rw [Expression.pieces_index]
    simp only [tokensOf_append, tokensOf_token, tokensOf_nil, List.append_assoc, List.cons_append, List.nil_append]
    refine h.object calls hcalls (.of_cons fun depth hdepth => ?_)
    have hinner := hp.reads.whole 0 (Nat.zero_le _) (by decide) (by decide) (.sign "]" :: rest) (Stops.none rfl rest)
      depth hdepth
    have hsuffixes := hanswer depth (by simp at hdepth; omega)
    change expression _ _ = _ at hinner
    change suffixes _ _ _ _ = _
    rw [suffixes]
    simpa [hinner, expect] using hsuffixes
  exact ⟨.of_object (hsuffix true (.inl rfl)), fun _ hcall => hsuffix false (.inr hcall)⟩

end Rereads

/-- **The tokens of an expression are read as this expression.** -/
theorem Expression.Valid.rereads {A : Alphabet} {e : Expression} (h : e.Valid A) : Rereads e := by
  induction h with
  | name _ htext => exact .name htext
  | this => exact .this
  | number _ => exact .number _
  | string _ => exact .string _
  | array _ ih => exact .array ih
  | @unary operator _ _ ih => exact ih.unary operator
  | @update operator before _ htarget _ ih =>
    cases before with
    | true => exact ih.updateBefore operator htarget
    | false => exact ih.updateAfter operator htarget
  | @binary operator _ _ _ _ ihl ihr =>
    by_cases hpower : operator = .power
    · subst hpower
      exact ihl.power ihr
    · exact ihl.binary operator hpower ihr
  | conditional _ _ _ iht ihy ihn => exact iht.conditional ihy ihn
  | @assign operator _ _ htarget _ _ iht ihv => exact iht.assign operator htarget ihv
  | sequence hlength _ ih => exact .sequence hlength ih
  | call _ hholes _ ihc ih => exact ihc.call hholes ih
  | construct _ hholes _ ihc ih => exact ihc.construct hholes ih
  | dot _ _ ih => exact ih.dot _
  | index _ _ iho ihp => exact iho.index ihp

/-- The text of an expression is read as this expression. -/
theorem read_textOf {A : Alphabet} {e : Expression} (h : e.Valid A) : A.read (textOf e.pieces) = some e := by
  have hread := h.rereads.reads.whole 0 (Nat.zero_le _) (by decide) (by decide) [] Stops.nil _ (Nat.le_refl _)
  change expression _ _ = _ at hread
  rw [List.append_nil] at hread
  rw [Alphabet.read, tokens_textOf h]
  simp [hread]

/-! ## Printing and reading -/

/-- **What is printed for an expression is read as this expression.** So two trees that stand for different
expressions are never printed alike. -/
theorem printNode_reads {A : Alphabet} {j : Json} {e : Expression} (h : Encodes j e) (he : e.Valid A) :
    (∃ text, printNode j = .ok (.str text) ∧ A.read text = some e) ∧
      ∀ j' e', Encodes j' e' → e'.Valid A → printNode j' = printNode j → e' = e := by
  refine ⟨⟨textOf e.pieces, h.printNode he, read_textOf he⟩, fun j' e' h' he' hsame => ?_⟩
  rw [h'.printNode he', h.printNode he] at hsame
  have htext : textOf e'.pieces = textOf e.pieces := Json.str.inj (Except.ok.inj hsame)
  have hread := read_textOf he'
  rw [htext, read_textOf he] at hread
  exact (Option.some.inj hread).symm

/-- The tree of `(-a) ** (1).b`, without the parentheses: an operand and an object that cannot stand bare. -/
def powerNode : Json :=
  .obj [("type", .str "BinaryExpression"), ("operator", .str "**"),
    ("left", .obj [("type", .str "UnaryExpression"), ("operator", .str "-"), ("prefix", .bool true),
      ("argument", .obj [("type", .str "Identifier"), ("name", .str "a")])]),
    ("right", .obj [("type", .str "MemberExpression"), ("computed", .bool false),
      ("object", .obj [("type", .str "Literal"), ("value", .int 1), ("raw", .str "1")]),
      ("property", .obj [("type", .str "Identifier"), ("name", .str "b")])])]

def powerExpression : Expression := .binary .power (.unary .minus (.name "a")) (.dot (.number "1") "b")

theorem encodes_powerNode : Encodes powerNode powerExpression :=
  .binary rfl rfl rfl rfl (.unary rfl rfl rfl (.name rfl rfl)) (.dot rfl rfl rfl rfl rfl rfl (.number rfl rfl rfl rfl))

theorem valid_powerExpression : powerExpression.Valid .ascii :=
  .binary (.unary (.name rfl (by decide))) (.dot (.number rfl) rfl)

theorem printNode_reads_power :
    (∃ text, printNode powerNode = .ok (.str text) ∧ Alphabet.ascii.read text = some powerExpression) ∧
      ∀ j' e', Encodes j' e' → e'.Valid .ascii → printNode j' = printNode powerNode → e' = powerExpression :=
  printNode_reads encodes_powerNode valid_powerExpression

end ScriptTrace
