import ScriptTrace.Proofs.ExpressionPieces

/-!
# The tokens of printed expressions

Between two pieces that touch each other no longer token arises: operators stand between spaces, an operator
before its operand is kept apart from one like it, a number from a point, and all other signs are never the
beginning of longer ones where they are printed.

* `Expression.Ends` : the characters that may follow an expression;
* `lexes_pieces` : the text of an expression is read as its tokens, whatever follows.
-/

namespace ScriptTrace

open Piece

variable {A : Alphabet}

/-- The characters that end every token but a sign. -/
def Alphabet.Stops (A : Alphabet) (c : Char) : Prop := A.isPart c = false ∧ c ≠ '.'

/-- The characters that may follow an expression; a point may follow members, calls and what binds tighter, but
no bare number. -/
def Expression.Ends (A : Alphabet) (e : Expression) (c : Char) : Prop :=
  A.isPart c = false ∧ (c = '.' → Precedence.call ≤ e.precedence ∧ e.bareNumber = false)

namespace Lexes

variable {ps qs : List Piece} {ok ok' : Char → Prop}

/-- Pieces before others whose first character is known. -/
theorem before {c : Char} (hps : Lexes A ps ok) (hqs : Lexes A qs ok') (hhead : (textOf qs).toList.head? = some c)
    (hc : ok c) : Lexes A (ps ++ qs) ok' :=
  hps.append hqs fun rest _ d hd => by
    rw [List.head?_append, hhead] at hd
    cases hd
    exact hc

/-- A sign that no longer sign begins with. -/
theorem sign {text : String} (htext : text ∈ signs) (h : ∀ c, (Lexing.sign text.toList).step A c = none) :
    Lexes A [.token (.sign text)] ok :=
  (token (Token.readTo_sign htext)).mono fun c _ => h c

theorem openParen : Lexes A [.token (.sign "(")] ok := sign (by decide) fun _ => rfl

theorem closeParen : Lexes A [.token (.sign ")")] ok := sign (by decide) fun _ => rfl

theorem openBracket : Lexes A [.token (.sign "[")] ok := sign (by decide) fun _ => rfl

theorem closeBracket : Lexes A [.token (.sign "]")] ok := sign (by decide) fun _ => rfl

theorem comma : Lexes A [Piece.comma] ok := sign (by decide) fun _ => rfl

/-- Pieces behind one that anything may follow. -/
theorem after {p : Piece} (hp : ∀ ok : Char → Prop, Lexes A [p] ok) (hps : Lexes A ps ok) : Lexes A (p :: ps) ok :=
  (hp fun _ => True).append hps fun _ _ _ _ => trivial

theorem beforeSpace (hps : Lexes A ps ok) (hqs : Lexes A qs ok') (hspace : ok ' ') : Lexes A (ps ++ Piece.space :: qs) ok' :=
  hps.before (after (fun _ => space) hqs) (c := ' ') (by simp [Piece.text]) hspace

/-- A token between spaces. -/
theorem spaced {t : Token} {last : Lexing} (ht : t.ReadTo A last) (hstop : last.step A ' ' = none) (hps : Lexes A ps ok)
    (hspace : ok ' ') (hqs : Lexes A qs ok') : Lexes A (ps ++ Piece.space :: .token t :: .space :: qs) ok' :=
  hps.beforeSpace ((token ht).beforeSpace hqs hstop) hspace

theorem enclosed {need : Bool} (hps : Lexes A ps ok) (hclose : ok ')') (hok : need = false → ∀ c, ok' c → ok c) :
    Lexes A (Piece.enclosed need ps) ok' := by
  cases need with
  | true => exact after (fun _ => openParen) (hps.before closeParen rfl hclose)
  | false => exact hps.mono (hok rfl)

/-- Rows with commas between them. -/
theorem listed {rows : List (List Piece)} (hrows : ∀ row ∈ rows, Lexes A row A.Stops) :
    Lexes A (Piece.listed rows) A.Stops := by
  induction rows with
  | nil => exact nil
  | cons row rows ih =>
    have hrow := hrows row (List.mem_cons_self ..)
    cases rows with
    | nil => simpa [Piece.listed] using hrow
    | cons other rows =>
      have hrest := ih fun r hr => hrows r (List.mem_cons_of_mem _ hr)
      rw [Piece.listed, List.intercalate_cons_cons, List.append_assoc]
      exact hrow.before (after (fun _ => comma) (after (fun _ => space) hrest)) (c := ',') (by simp [Piece.comma, Piece.text, Token.text])
        ⟨rfl, by decide⟩

end Lexes

namespace Expression

variable {e : Expression}

theorem stops_ends {c : Char} (h : A.Stops c) : e.Ends A c := ⟨h.1, fun hc => absurd hc h.2⟩

/-- What binds less than a call is followed by no point. -/
theorem ends_stops {c : Char} (hloose : e.precedence < Precedence.call) (h : e.Ends A c) : A.Stops c :=
  ⟨h.1, fun hc => absurd (h.2 hc).1 (Nat.not_le_of_lt hloose)⟩

theorem lexes_enclosed (h : Lexes A e.pieces (e.Ends A)) (need : Bool) : Lexes A (enclosed need e.pieces) A.Stops :=
  h.enclosed (stops_ends ⟨rfl, by decide⟩) fun _ _ hc => stops_ends hc

theorem lexes_operand (h : Lexes A e.pieces (e.Ends A)) (required : Precedence) : Lexes A (e.operand required) A.Stops :=
  lexes_enclosed h _

theorem lexes_rowOf {x : Element Expression} (h : ∀ e ∈ x.value?, Lexes A e.pieces (e.Ends A)) :
    Lexes A (rowOf x) A.Stops := by
  cases x with
  | hole => exact Lexes.nil
  | item e => rw [rowOf_item]; exact lexes_operand (h e rfl) _
  | spread e =>
    rw [rowOf_spread]
    exact Lexes.after (fun _ => Lexes.sign (by decide) fun _ => rfl) (lexes_operand (h e rfl) _)

theorem lexes_rows {items : List (Element Expression)} (h : ∀ x ∈ items, ∀ e ∈ x.value?, Lexes A e.pieces (e.Ends A)) :
    Lexes A (listed (items.map rowOf)) A.Stops := by
  refine Lexes.listed fun row hrow => ?_
  obtain ⟨x, hx, rfl⟩ := List.mem_map.1 hrow
  exact lexes_rowOf (h x hx)

/-- The object of a member, which a point may follow. -/
theorem lexes_object (h : Lexes A e.pieces (e.Ends A)) :
    Lexes A (enclosed (e.bareNumber || e.precedence < Precedence.call) e.pieces) fun c => A.isPart c = false := by
  refine h.enclosed (stops_ends ⟨rfl, by decide⟩) fun hneed c hc => ⟨hc, fun _ => ?_⟩
  simpa [and_comm] using hneed

end Expression

/-! ## Operators -/

/-- A word with a space behind it. -/
theorem Token.spaced_word {text : String} (h : (Token.word text).Proper A) :
    ∃ last, (Token.word text).ReadTo A last ∧ last.step A ' ' = none := by
  obtain ⟨last, hlast⟩ := h.readTo
  exact ⟨last, hlast, hlast.word rfl⟩

theorem UnaryOperator.spaced (operator : UnaryOperator) : ∃ last, operator.token.ReadTo A last ∧ last.step A ' ' = none := by
  cases operator with
  | typeof | void | delete => exact Token.spaced_word rfl
  | _ => exact ⟨_, Token.readTo_sign (by decide), rfl⟩

theorem BinaryOperator.spaced (operator : BinaryOperator) :
    ∃ last, operator.token.ReadTo A last ∧ last.step A ' ' = none := by
  cases operator with
  | isIn | instanceOf => exact Token.spaced_word rfl
  | _ => exact ⟨_, Token.readTo_sign (by decide), rfl⟩

theorem AssignOperator.spaced (operator : AssignOperator) :
    ∃ last, operator.token.ReadTo A last ∧ last.step A ' ' = none := by
  cases operator
  all_goals exact ⟨_, Token.readTo_sign (by decide), rfl⟩

theorem UpdateOperator.lexes (operator : UpdateOperator) (ok : Char → Prop) : Lexes A [.token operator.token] ok := by
  cases operator
  all_goals exact Lexes.sign (by decide) fun _ => rfl

/-- A sign before an operand that begins neither with it nor with an equality sign. -/
theorem sign_touching {c s : Char} (hs : s ∈ ['-', '+', '!', '~']) (hc : c ≠ '=') (hne : c ≠ s) :
    (Lexing.sign [s]).step A c = none := by
  simp only [List.mem_cons, List.not_mem_nil, or_false] at hs
  rcases hs with rfl | rfl | rfl | rfl
  all_goals simp [Lexing.step, beginsSign, signs, hc, hne]

/-- An operator before its operand is a sign of one character, or a word with a space behind it. -/
theorem UnaryOperator.sign_or_word (operator : UnaryOperator) :
    (∃ s ∈ ['-', '+', '!', '~'], operator.token = .sign (String.ofList [s]) ∧ String.ofList [s] ∈ signs) ∨
      ∀ text, operator.apart text = true := by
  cases operator with
  | minus => exact .inl ⟨'-', by decide, rfl, by decide⟩
  | plus => exact .inl ⟨'+', by decide, rfl, by decide⟩
  | not => exact .inl ⟨'!', by decide, rfl, by decide⟩
  | complement => exact .inl ⟨'~', by decide, rfl, by decide⟩
  | typeof | void | delete => exact .inr fun _ => rfl

/-- Before a text that it need not be kept apart from, an operator is a token of its own. -/
theorem UnaryOperator.touching {operator : UnaryOperator} {text : String} (hbegins : Begins text)
    (h : operator.apart text = false) :
    ∃ last, operator.token.ReadTo A last ∧ ∀ c ∈ text.toList.head?, last.step A c = none := by
  obtain ⟨c, cs, htext, hc⟩ := hbegins
  rcases operator.sign_or_word with ⟨s, hs, htoken, hsigns⟩ | hword
  · rw [htoken]
    refine ⟨_, Token.readTo_sign hsigns, fun d hd => ?_⟩
    rw [htext] at hd
    cases hd
    rw [String.toList_ofList]
    refine sign_touching hs hc ?_
    rintro rfl
    simp [apart, htoken, htext, Token.text] at h
  · rw [hword] at h
    cases h

/-! ## Names -/

theorem toNat_of_isDigit {c : Char} (h : c.isDigit = true) : 48 ≤ c.toNat ∧ c.toNat ≤ 57 := by
  simpa [Char.isDigit, UInt32.le_iff_toNat_le] using h

theorem Alphabet.not_isDigit_of_isStart {c : Char} (h : A.isStart c = true) : c.isDigit = false := by
  rw [← Bool.not_eq_true]
  intro hdigit
  obtain ⟨hlow, hhigh⟩ := toNat_of_isDigit hdigit
  rw [isStart, if_pos (Nat.lt_of_le_of_lt hhigh (by decide))] at h
  simp only [Bool.or_eq_true, beq_iff_eq] at h
  rcases h with (h | rfl) | rfl
  · simp only [isAlpha_iff, UInt32.le_iff_toNat_le] at h
    have hnat : c.toNat = c.val.toNat := rfl
    rcases h with ⟨h, -⟩ | ⟨h, -⟩
    · exact absurd (Nat.le_trans h (hnat ▸ hhigh)) (by decide)
    · exact absurd (Nat.le_trans h (hnat ▸ hhigh)) (by decide)
  · exact absurd hlow (by decide)
  · exact absurd hhigh (by decide)

/-- A point before a name is a token of its own. -/
theorem point_touching {c : Char} (hc : A.isStart c = true) : (Lexing.sign ['.']).step A c = none := by
  have hpoint : c ≠ '.' := by
    rintro rfl
    cases hc
  simp [Lexing.step, beginsSign, signs, Alphabet.not_isDigit_of_isStart hc, hpoint]

/-- The digits of ASCII are among those of all scripts. -/
theorem isDigit_of_ascii {c : Char} (h : c.isDigit = true) : isDigit c = true := by
  obtain ⟨hlow, hhigh⟩ := toNat_of_isDigit h
  have hrow : (decimalZeros.find? fun z => z ≤ c.toNat && c.toNat < z + 10) = some 0x30 := by
    rw [decimalZeros, List.find?_cons_of_pos]
    simp only [Bool.and_eq_true, decide_eq_true_eq]
    omega
  simp [isDigit, decimalDigit?, hrow]

theorem level_lt (operator : BinaryOperator) : Syntax.level operator < Precedence.call := by
  cases operator <;> decide

/-- Arguments in their parentheses, behind a callee. -/
theorem lexes_arguments {ps : List Piece} {items : List (Element Expression)} {ok : Char → Prop} (hps : Lexes A ps A.Stops)
    (h : ∀ x ∈ items, ∀ e ∈ x.value?, Lexes A e.pieces (e.Ends A)) :
    Lexes A (ps ++ token (.sign "(") :: listed (items.map Expression.rowOf) ++ [token (.sign ")")]) ok := by
  rw [List.append_assoc]
  refine hps.before (Lexes.after (fun _ => Lexes.openParen) ?_) (c := '(') (by simp [Piece.text, Token.text])
    ⟨rfl, by decide⟩
  exact (Expression.lexes_rows h).before Lexes.closeParen rfl ⟨rfl, by decide⟩

/-! ## All expressions -/

/-- **The text of an expression is read as its tokens.** -/
theorem lexes_pieces {e : Expression} (h : e.Valid A) : Lexes A e.pieces (e.Ends A) := by
  induction h with
  | name htoken _ =>
    obtain ⟨last, hlast⟩ := htoken.readTo
    exact (Lexes.token hlast).mono fun c hc => hlast.word hc.1
  | this =>
    obtain ⟨last, hlast⟩ := Token.Proper.readTo (t := .word "this") (A := A) rfl
    exact (Lexes.token hlast).mono fun c hc => hlast.word hc.1
  | @number raw htoken =>
    obtain ⟨last, hlast⟩ := htoken.readTo
    refine (Lexes.token hlast).mono fun c hc => ?_
    by_cases hpoint : c = '.'
    · refine hlast.fraction (fun d hd => ?_) hc.1
      have hbare := (hc.2 hpoint).2
      rw [← Bool.not_eq_true]
      intro hdigit
      rw [Option.mem_def] at hd
      simp [Expression.bareNumber, hd, isDigit_of_ascii hdigit] at hbare
    · exact hlast.number hc.1 hpoint
  | string htoken =>
    obtain ⟨last, hlast⟩ := htoken.readTo
    exact (Lexes.token hlast).mono fun c _ => hlast.string
  | @array items _ ih =>
    rw [Expression.pieces_array]
    have hrows := Expression.lexes_rows ih
    have hitems : Lexes A (listed (items.map Expression.rowOf) ++ if Expression.endsInHole items then [comma] else [])
        A.Stops := by
      split
      · exact hrows.before Lexes.comma rfl ⟨rfl, by decide⟩
      · rwa [List.append_nil]
    exact Lexes.after (fun _ => Lexes.openBracket) (hitems.before Lexes.closeBracket rfl ⟨rfl, by decide⟩)
  | @unary operator e hvalid ih =>
    rw [Expression.pieces_unary]
    have hoperand := (Expression.lexes_operand ih .unary).mono fun c hc =>
      Expression.ends_stops (e := .unary operator e) (show Precedence.unary < Precedence.call by decide) hc
    cases hapart : operator.apart (textOf (e.operand .unary)) with
    | true =>
      obtain ⟨last, hlast, hspace⟩ := operator.spaced (A := A)
      exact (Lexes.token hlast).beforeSpace hoperand hspace
    | false =>
      have hbegins : Begins (textOf (e.operand .unary)) := hvalid.begins.enclosed _
      obtain ⟨last, hlast, hstop⟩ := UnaryOperator.touching (A := A) hbegins hapart
      obtain ⟨c, cs, htext, -⟩ := hbegins
      exact (Lexes.token hlast).before hoperand (c := c) (by rw [htext]; rfl) (hstop c (by rw [htext]; rfl))
  | @update operator before target _ _ ih =>
    rw [Expression.pieces_update]
    have hoperand := Expression.lexes_operand ih .postfixOp
    cases before with
    | true => exact Lexes.after operator.lexes (hoperand.mono fun c hc =>
        Expression.ends_stops (e := .update operator true target) (show Precedence.unary < Precedence.call by decide) hc)
    | false =>
      rw [if_neg (by simp)]
      cases operator with
      | increment => exact hoperand.before (c := '+') (UpdateOperator.lexes .increment _) rfl ⟨rfl, by decide⟩
      | decrement => exact hoperand.before (c := '-') (UpdateOperator.lexes .decrement _) rfl ⟨rfl, by decide⟩
  | @binary operator left right _ _ ihl ihr =>
    rw [Expression.pieces_binary]
    obtain ⟨last, hlast, hspace⟩ := operator.spaced (A := A)
    refine Lexes.spaced hlast hspace (Expression.lexes_operand ihl _) ⟨rfl, by decide⟩
      ((Expression.lexes_operand ihr _).mono fun c hc => ?_)
    exact Expression.ends_stops (e := .binary operator left right) (level_lt operator) hc
  | @conditional test yes no _ _ _ iht ihy ihn =>
    rw [Expression.pieces_conditional]
    have hquestion := Lexes.spaced (A := A) (Token.readTo_sign (show "?" ∈ signs by decide)) rfl
      (Expression.lexes_operand iht (Precedence.conditional + 1)) ⟨rfl, by decide⟩ (Expression.lexes_operand ihy .assign)
    refine Lexes.spaced (Token.readTo_sign (show ":" ∈ signs by decide)) rfl hquestion ⟨rfl, by decide⟩
      ((Expression.lexes_operand ihn .assign).mono fun c hc => ?_)
    exact Expression.ends_stops (e := .conditional test yes no) (show Precedence.conditional < Precedence.call by decide) hc
  | @assign operator target value _ _ _ iht ihv =>
    rw [Expression.pieces_assign]
    obtain ⟨last, hlast, hspace⟩ := operator.spaced (A := A)
    refine Lexes.spaced hlast hspace (Expression.lexes_operand iht _) ⟨rfl, by decide⟩
      ((Expression.lexes_operand ihv _).mono fun c hc => ?_)
    exact Expression.ends_stops (e := .assign operator target value) (show Precedence.assign < Precedence.call by decide) hc
  | @sequence items _ _ ih =>
    rw [Expression.pieces_sequence]
    refine (Lexes.listed fun row hrow => ?_).mono fun c hc =>
      Expression.ends_stops (e := .sequence items) (show Precedence.sequence < Precedence.call by decide) hc
    obtain ⟨e, he, rfl⟩ := List.mem_map.1 hrow
    exact Expression.lexes_operand (ih e he) _
  | call _ _ _ ihc ih =>
    rw [Expression.pieces_call]
    exact lexes_arguments (Expression.lexes_operand ihc _) ih
  | construct _ _ _ ihc ih =>
    rw [Expression.pieces_construct]
    obtain ⟨last, hlast, hspace⟩ := Token.spaced_word (show (Token.word "new").Proper A from rfl)
    exact lexes_arguments ((Lexes.token hlast).beforeSpace (Expression.lexes_enclosed ihc _) hspace) ih
  | dot _ hproperty ih =>
    rw [Expression.pieces_dot]
    obtain ⟨last, hlast⟩ := hproperty.readTo
    obtain ⟨c, cs, htext, hc⟩ := hlast.begins_word
    have hname := (Lexes.token hlast).mono fun d (hd : A.isPart d = false) => hlast.word hd
    have hpoint := (Lexes.token (Token.readTo_sign (show "." ∈ signs by decide))).before hname (c := c)
      (by simp [Piece.text, Token.text, htext]) (point_touching hc)
    exact (Expression.lexes_object ih).before (hpoint.mono fun d hd => hd.1) (c := '.') (by simp [Piece.text, Token.text]) rfl
  | index _ _ iho ihp =>
    rw [Expression.pieces_index, List.append_assoc]
    refine (Expression.lexes_object iho).before (Lexes.after (fun _ => Lexes.openBracket) ?_)
      (c := '[') (by simp [Piece.text, Token.text]) rfl
    exact ihp.before Lexes.closeBracket rfl (Expression.stops_ends ⟨rfl, by decide⟩)

/-- The tokens of the text of an expression. -/
theorem tokens_textOf {e : Expression} (h : e.Valid A) : A.tokens (textOf e.pieces) = some (tokensOf e.pieces) :=
  (lexes_pieces h).tokens

end ScriptTrace
