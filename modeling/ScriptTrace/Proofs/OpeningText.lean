import ScriptTrace.Proofs.TextFronts

/-!
# How printed text opens

A statement that is printed as one string stands for a directive where it comes early enough. The text of any other
statement opens with something else than a quote, or goes on behind the string that it opens with.

* `isStringToken`, `isDirectiveText` : text that is one string, and such a text as a statement;
* `Opens` : text that does not open with a quote, or with a string; only text that may be lone is nothing but the string;
* `Opening` : a node whose words are no strings, and whose first part opens so;
* `Opening.opensAs`, `Opening.gives_statementOf` : how its text opens as an expression and as a statement.
-/

namespace ScriptTrace

/-! ## Strings -/

def isQuote (c : Char) : Bool := c == '"' || c == '\''

/-- Whether a text is one string, between quotes. -/
def isStringToken (s : String) : Bool :=
  match s.toList with
  | [] => false
  | quote :: rest => isQuote quote && rest.foldlM (StringPart.step quote) .inside == some .closed

/-- Whether a text opens with a character that is no quote. -/
def isPlainStart (s : String) : Bool := s.toList.head?.any fun c => !isQuote c

/-- Whether the text of a statement is one string and a semicolon. -/
def isDirectiveText (s : String) : Bool :=
  s.toList.getLast? == some ';' && isStringToken (String.ofList s.toList.dropLast)

section Strings

variable {s t : String}

theorem isPlainStart_append (h : isPlainStart s = true) (t : String) : isPlainStart (s ++ t) = true := by
  obtain ⟨c, hc, hquote⟩ := (Option.any_eq_true _ _).1 h
  rw [isPlainStart, String.toList_append, List.head?_append, hc]
  exact hquote

theorem ne_empty_of_plainStart (h : isPlainStart s = true) : s ≠ "" := by
  rintro rfl
  cases h

/-- What opens with something else than a quote is no string. -/
theorem isStringToken_of_plainStart (h : isPlainStart s = true) : isStringToken s = false := by
  obtain ⟨c, hc, hquote⟩ := (Option.any_eq_true _ _).1 h
  obtain ⟨rest, hs⟩ := List.head?_eq_some_iff.1 hc
  rw [isStringToken, hs]
  simpa using fun hq => absurd hq (by simpa using hquote)

/-- Nothing goes on behind the quote that ends a string. -/
theorem isStringToken_append (h : isStringToken s = true) (ht : t ≠ "") : isStringToken (s ++ t) = false := by
  unfold isStringToken at h ⊢
  rw [String.toList_append]
  split at h
  · cases h
  · next quote rest hs =>
    obtain ⟨-, hclosed⟩ := Bool.and_eq_true_iff.1 h
    cases hrest : t.toList with
    | nil => exact absurd (String.toList_eq_nil_iff.1 hrest) ht
    | cons c cs =>
      rw [hs, List.cons_append]
      dsimp only
      rw [List.foldlM_append, eq_of_beq hclosed]
      exact Bool.and_eq_false_iff.2 (.inr rfl)

theorem isPlainStart_of_string (h : isStringToken s = true) : isPlainStart s = false := by
  cases hplain : isPlainStart s with
  | false => rfl
  | true =>
    rw [isStringToken_of_plainStart hplain] at h
    cases h

theorem isDirectiveText_semicolon (s : String) : isDirectiveText (s ++ ";") = isStringToken s := by
  have hsemicolon : ";".toList = [';'] := rfl
  rw [isDirectiveText, String.toList_append, hsemicolon, List.getLast?_concat, List.dropLast_concat, String.ofList_toList]
  exact Bool.and_eq_right_iff_imp.2 fun _ => rfl

/-- The text of a statement that opens with something else than a quote. -/
theorem isDirectiveText_of_plainStart (h : isPlainStart s = true) : isDirectiveText s = false := by
  obtain ⟨c, hc, hquote⟩ := (Option.any_eq_true _ _).1 h
  obtain ⟨rest, hs⟩ := List.head?_eq_some_iff.1 hc
  refine Bool.and_eq_false_iff.2 (.inr ?_)
  rw [hs]
  cases rest with
  | nil => rfl
  | cons d rest =>
    rw [List.dropLast_cons_cons]
    refine isStringToken_of_plainStart ?_
    rw [isPlainStart, String.toList_ofList]
    exact hquote

end Strings

/-! ## Openings -/

/-- How text opens: not with a quote, or with a string. Text that is not `lone` goes on behind the string. -/
inductive Opens : Bool → String → Prop
  | plain {lone : Bool} {s : String} (h : isPlainStart s = true) : Opens lone s
  | string {s : String} (h : isStringToken s = true) : Opens true s
  | more {lone : Bool} {s t : String} (h : isStringToken s = true) (ht : t ≠ "") : Opens lone (s ++ t)

namespace Opens

variable {lone : Bool} {s t : String}

theorem alone (h : Opens lone s) : Opens true s := by
  cases h with
  | plain h => exact .plain h
  | string h => exact .string h
  | more h ht => exact .more h ht

/-- Text with something behind it is no string. -/
theorem followed (h : Opens true s) (ht : t ≠ "") : Opens lone (s ++ t) := by
  cases h with
  | plain h => exact .plain (isPlainStart_append h t)
  | string h => exact .more h ht
  | @more _ s t' h ht' =>
    rw [String.append_assoc]
    exact .more h fun he => ht (String.append_eq_empty_iff.1 he).2

theorem append (h : Opens lone s) (t : String) : Opens lone (s ++ t) := by
  by_cases ht : t = ""
  · rw [ht, String.append_empty]
    exact h
  · exact h.alone.followed ht

theorem not_string (h : Opens false s) : isStringToken s = false := by
  cases h with
  | plain h => exact isStringToken_of_plainStart h
  | more h ht => exact isStringToken_append h ht

end Opens

/-- Text that may still be a value of another kind. -/
def OpensPart (lone : Bool) (j : Json) : Prop := ∀ s, j = .str s → Opens lone s

theorem OpensPart.text {lone : Bool} {s : String} (h : Opens lone s) : OpensPart lone (.str s) := by
  rintro _ ⟨⟩
  exact h

/-- A literal that stands for a string. -/
def isStringLiteral (v : Json) : Bool := v.type? == some "Literal" && (v.field "value").string?.isSome

/-- A statement that is nothing but a string. -/
def isStringStatement (s : Json) : Bool := s.type? == some "ExpressionStatement" && isStringLiteral (s.field "expression")

/-- The text of a statement that is a string, as it was written. -/
def stringText (s : Json) : String := ((s.field "expression").field "raw").string?.getD "" ++ ";"

open Printable

/-- The printed text of an expression opens as its node tells: only that of a literal is a string. -/
def OpensAs (v : Json) : Prop :=
  ∀ place, Gives ((printable v).fragment place) fun f => OpensPart (isStringLiteral v) f.text

/-- Whether a literal is written as what it stands for: a string as one, another value without quotes. -/
def isWritten (fields : Fields Json) : Bool :=
  ((Fields.get? "raw" fields).bind Json.string?).any
    (if (Json.field "value" (.obj fields)).string?.isSome then isStringToken else isPlainStart)

/-- The fields of a node whose words are no strings, and whose first part opens as its own node tells. -/
structure Opening (type : String) (fields : Fields Json) : Prop where
  typed : Fields.type? fields = some type
  word : ∀ key ∈ ["name", "operator", "kind"], ∀ s, Fields.get? key fields = some (.str s) → isPlainStart s = true
  written : type = "Literal" → isWritten fields = true
  named : ∀ key ∈ ["meta", "label"], ∀ v s, Fields.get? key fields = some v → v.get? "name" = some (.str s) → isPlainStart s = true
  lead : ∀ key v, leadKey type = some key → Fields.get? key fields = some v → OpensAs v
  items : type = "SequenceExpression" → ∃ v w vs, Fields.get? "expressions" fields = some (.arr (v :: w :: vs)) ∧ OpensAs v

section Openings

variable {fields : Fields Json} {type : String} {place : Place} {lone : Bool} {v : Json} {l : Layer Printable}

/-! ## Expressions -/

/-- The text of an expression; in parentheses it does not open with a quote. -/
theorem OpensAs.expression (h : OpensAs v) (required : Precedence) :
    Gives ((printable v).expression place required) (OpensPart (isStringLiteral v)) := by
  refine (h place).bind fun f hf => ends_ite (fun _ => ?_) fun _ => hf
  refine gives_then fun s => ends_pure.2 (.text ?_)
  rw [String.append_assoc]
  exact (Opens.plain rfl).append _

theorem OpensOwn.plain {s : String} (h : OpensOwn s) : isPlainStart s = true := by
  have hall : ∀ w ∈ openers, isPlainStart w = true := by decide
  obtain ⟨w, hw, t, rfl⟩ := h
  exact isPlainStart_append (hall w hw) t

/-- Something stands behind the first part of a node. -/
theorem Behind.ne_empty {sign : String} (h : Behind fields type sign)
    (hword : ∀ s, Fields.get? "operator" fields = some (.str s) → isPlainStart s = true) : sign ≠ "" := by
  cases h with
  | binary _ _ _ => simp
  | assignment _ => simp
  | update hoperator => exact ne_empty_of_plainStart (hword _ hoperator)
  | _ => decide

namespace Opening

variable (h : Opening type fields)

include h

theorem opens_written {s : String} (htype : type = "Literal") (hs : literal (printed fields) = .ok (.str s)) :
    Opens (isStringLiteral (.obj fields)) s := by
  subst htype
  obtain ⟨raw, hraw, hwritten⟩ := (Option.any_eq_true _ _).1 (h.written rfl)
  obtain ⟨v, hv, hstr⟩ := Option.bind_eq_some_iff.1 hraw
  obtain rfl : v = .str raw := by cases v <;> cases hstr; rfl
  rw [Prints.literal_printed hv] at hs
  cases hs
  rw [isStringLiteral, show (Json.obj fields).type? = some "Literal" from h.typed, beq_self_eq_true, Bool.true_and]
  cases hvalue : (Json.field "value" (.obj fields)).string?.isSome with
  | true =>
    rw [hvalue] at hwritten
    exact .string hwritten
  | false =>
    rw [hvalue] at hwritten
    exact .plain hwritten

omit h in
/-- The text of a part that is printed first. -/
theorem opens_part {s : String} {required : Precedence} (hv : OpensAs v)
    (hs : (printable v).expression place required = .ok (.str s)) : Opens true s := by
  have hopens : Gives ((printable v).expression place required) (OpensPart (isStringLiteral v)) := hv.expression required
  rw [hs] at hopens
  exact (hopens s rfl).alone

/-- The text of an expression node opens as the node tells. -/
theorem opens_frontOf {s : String} (hs : FrontOf type fields place s) : Opens (isStringLiteral (.obj fields)) s := by
  cases hs with
  | own hown => exact .plain hown.plain
  | word hword =>
    have hall : ∀ w ∈ ["this", "super", "yield"], isPlainStart w = true := by decide
    exact .plain (hall s hword)
  | name _ hname => exact .plain (h.word "name" (by decide) s hname)
  | metaName _ hv hname => exact ((Opens.plain (h.named "meta" (by decide) _ _ hv hname)).append _).append _
  | literal htype hs => exact h.opens_written htype hs
  | operator _ hoperator => exact (Opens.plain (h.word "operator" (by decide) _ hoperator)).append _
  | operand _ hw =>
    have hall : ∀ w ∈ ["await ", "yield "], isPlainStart w = true := by decide
    exact (Opens.plain (hall _ hw)).append _
  | lead hkey hpart hbehind =>
    obtain ⟨v, required, hv, hs⟩ := hpart
    have hne := hbehind.ne_empty fun s hs => h.word "operator" (by decide) s hs
    exact (opens_part (h.lead _ v hkey hv) hs).followed fun he => hne (String.append_eq_empty_iff.1 he).1
  | first htype hitems hs =>
    obtain ⟨v, w, vs, hlist, hv⟩ := h.items htype
    cases hitems.symm.trans hlist
    exact (opens_part hv hs).followed fun he => absurd (String.append_eq_empty_iff.1 he).1 (by decide)
  | short htype hnone =>
    obtain ⟨v, w, vs, hlist, -⟩ := h.items htype
    exact absurd hlist (hnone v w vs)

theorem opensAs : OpensAs (.obj fields) := fun place => by
  rw [fragment_printed h.typed]
  exact gives_frontOf.mono fun f hf s hs => h.opens_frontOf (hf s hs)

omit h in
/-- A node without words. -/
theorem of_lead (htype : Fields.type? fields = some type)
    (hwords : ∀ key ∈ ["name", "operator", "kind", "meta", "label"], Fields.get? key fields = none)
    (hother : type ≠ "Literal" ∧ type ≠ "SequenceExpression")
    (hlead : ∀ key v, leadKey type = some key → Fields.get? key fields = some v → OpensAs v) : Opening type fields where
  typed := htype
  word key hkey s hs := by
    rw [hwords key (List.mem_append_left ["meta", "label"] hkey)] at hs
    cases hs
  written hliteral := absurd hliteral hother.1
  named key hkey v s hv _ := by
    rw [hwords key (List.mem_append_right ["name", "operator", "kind"] hkey)] at hv
    cases hv
  lead := hlead
  items hsequence := absurd hsequence hother.2

end Opening

/-! ### Calls by name -/

theorem opensAs_ident {name : String} (h : isPlainStart name = true) : OpensAs (.ident (.str name)) := fun place => by
  have htype : Fields.type? [("type", Json.str "Identifier"), ("name", .str name)] = some "Identifier" := rfl
  rw [Json.ident, fragment_printed htype]
  exact OpensPart.text (.plain h)

theorem opensAs_callOf {name : String} (h : isPlainStart name = true) (arguments : List Json) :
    OpensAs (.callOf name arguments) := by
  refine (Opening.of_lead rfl (by simp [Fields.get?]) (by decide) fun key v hkey hv => ?_).opensAs
  cases hkey
  cases hv
  exact opensAs_ident h

theorem opening_expressionStatement {e : Json} (h : OpensAs e) :
    Opening "ExpressionStatement" [("type", .str "ExpressionStatement"), ("expression", e)] := by
  refine .of_lead rfl (by simp [Fields.get?]) (by decide) fun key v hkey hv => ?_
  cases hkey
  cases hv
  exact h

/-! ## Statements -/

theorem gives_inBraces_plain {ps : List Printable} : Gives (inBraces place ps) fun s => isPlainStart s = true := by
  refine gives_then fun lines => ends_pure.2 ?_
  simp only [String.append_assoc]
  exact isPlainStart_append rfl _

theorem gives_block_plain : Gives (block place l) fun s => isPlainStart s = true := by
  unfold block
  refine gives_then fun body => ?_
  cases body with
  | none => exact ends_pure.2 rfl
  | some body => exact ends_ite (fun _ => gives_then fun _ => gives_inBraces_plain) fun _ => ends_pure.2 rfl

theorem gives_jump_plain {word : String} (hword : isPlainStart word = true) : Gives (jump word l) fun s => isPlainStart s = true := by
  unfold jump
  refine gives_then fun label => ?_
  split
  · refine gives_then fun name => ends_pure.2 ?_
    simp only [String.append_assoc]
    exact isPlainStart_append hword _
  · exact ends_pure.2 (isPlainStart_append hword _)

theorem gives_branch_plain : Gives (branch place l) fun s => isPlainStart s = true := by
  have hopens (s : String) : isPlainStart ("if (" ++ s) = true := isPlainStart_append rfl s
  unfold branch
  refine gives_then fun consequent => gives_then fun alternate => ?_
  cases alternate with
  | none =>
    refine gives_then fun _ => gives_then fun test => gives_then fun yes => ends_pure.2 ?_
    simp only [String.append_assoc]
    exact hopens _
  | some alternate =>
    refine gives_then fun wrapped => gives_then fun _ => gives_then fun test => ?_
    extract_lets rest
    have hrest (text : String) : Gives (rest text) fun s => isPlainStart s = true := by
      refine gives_then fun isBlock => ?_
      extract_lets gap
      refine gives_then fun _ => ends_ite (fun _ => gives_then fun s => ends_pure.2 ?_) fun _ => gives_then fun s => ends_pure.2 ?_
      all_goals
        simp only [String.append_assoc]
        exact hopens _
    exact ends_ite (fun _ => gives_then fun s => hrest _) fun _ => gives_then hrest

theorem gives_countedLoop_plain : Gives (countedLoop place l) fun s => isPlainStart s = true := by
  unfold countedLoop
  refine gives_then fun _ => gives_then fun _ => gives_then fun _ => gives_then fun _ => gives_then fun _ => gives_then fun _ => ?_
  refine gives_then fun _ => gives_then fun _ => ends_pure.2 ?_
  simp only [String.append_assoc]
  exact isPlainStart_append rfl _

theorem gives_eachLoop_plain {word : String} {required : Precedence} :
    Gives (eachLoop word required place l) fun s => isPlainStart s = true := by
  unfold eachLoop
  refine gives_then fun _ => gives_then fun _ => gives_then fun _ => gives_then fun _ => gives_then fun _ => gives_then fun _ => ?_
  refine ends_pure.2 ?_
  simp only [String.append_assoc]
  exact isPlainStart_append rfl _

theorem gives_whileLoop_plain : Gives (whileLoop place l) fun s => isPlainStart s = true := by
  unfold whileLoop
  refine gives_then fun _ => gives_then fun _ => gives_then fun _ => gives_then fun _ => ends_pure.2 ?_
  simp only [String.append_assoc]
  exact isPlainStart_append rfl _

theorem gives_doLoop_plain : Gives (doLoop place l) fun s => isPlainStart s = true := by
  unfold doLoop
  refine gives_then fun _ => gives_then fun text => gives_then fun _ => gives_then fun _ => gives_then fun _ => ends_pure.2 ?_
  simp only [String.append_assoc]
  exact isPlainStart_append rfl _

theorem gives_tryStatement_plain : Gives (tryStatement place l) fun s => isPlainStart s = true := by
  unfold tryStatement
  refine gives_then fun _ => gives_then fun guarded => ?_
  extract_lets rest
  have hrest (caught : String) : Gives (rest caught) fun s => isPlainStart s = true := by
    have hopens (s : String) : isPlainStart ("try " ++ guarded ++ caught ++ s) = true := by
      simp only [String.append_assoc]
      exact isPlainStart_append rfl _
    refine gives_then fun finalizer => ?_
    cases finalizer with
    | none => exact ends_pure.2 (hopens "")
    | some f => exact gives_then fun s => ends_pure.2 (hopens _)
  refine gives_then fun caught => ?_
  cases caught with
  | none => exact hrest ""
  | some c => exact gives_then hrest

theorem gives_switchStatement_plain : Gives (switchStatement place l) fun s => isPlainStart s = true := by
  unfold switchStatement
  refine gives_then fun _ => gives_then fun _ => gives_then fun _ => gives_then fun _ => ends_pure.2 ?_
  simp only [String.append_assoc]
  exact isPlainStart_append rfl _

theorem Opening.gives_declaration (h : Opening type fields) :
    Gives (declaration place (printed fields)) fun s => isPlainStart s = true := by
  have hkind : Gives (textOf "kind" (printed fields)) fun s => isPlainStart s = true :=
    (gives_sourceText "kind").mono fun s hs => h.word "kind" (by decide) s hs
  unfold declaration
  refine gives_then fun _ => gives_then fun _ => gives_then fun _ => hkind.bind fun kind hs => gives_then fun s => ends_pure.2 ?_
  rw [String.append_assoc]
  exact isPlainStart_append hs _

/-- The text of a statement that is no string. -/
theorem Opening.gives_statementOf (h : Opening type fields) (hdirective : (Json.field "directive" (.obj fields)).truthy = false)
    (hstring : isStringStatement (.obj fields) = false) :
    Gives (statementOf type place (printed fields)) fun s => isDirectiveText s = false := by
  have hplain {act : Except Fault String} (hact : Gives act fun s => isPlainStart s = true) :
      Gives act fun s => isDirectiveText s = false := hact.mono fun _ => isDirectiveText_of_plainStart
  unfold statementOf
  split
  · exact hplain gives_block_plain
  · exact ends_pure.2 rfl
  · exact ends_pure.2 rfl
  · obtain ⟨content, hcontent, hnone⟩ := directive_printed fields
    rw [hdirective, Option.isSome_eq_false_iff, Option.isNone_iff_eq_none] at hnone
    unfold expressionStatement
    rw [hcontent, ok_bind, hnone]
    refine (gives_found "expression").bind fun p ⟨v, hv, hp⟩ => ?_
    subst hp
    have hlone : isStringLiteral v = false := by
      rw [isStringStatement, show (Json.obj fields).type? = some "ExpressionStatement" from h.typed, Json.field_of_get? hv] at hstring
      exact hstring
    refine ((h.lead "expression" v rfl hv).expression .sequence).bind fun j hj => ?_
    split
    · next text =>
      refine ends_pure.2 ?_
      rw [isDirectiveText_semicolon]
      split
      · rw [String.append_assoc]
        exact isStringToken_of_plainStart (isPlainStart_append rfl _)
      · exact (hlone ▸ hj text rfl).not_string
    · trivial
  · refine hplain (h.gives_declaration.bind fun s hs => ends_pure.2 ?_)
    exact isPlainStart_append hs ";"
  · exact hplain (gives_function_own.mono fun _ hs => hs.plain)
  · exact hplain (gives_classText_own.mono fun _ hs => hs.plain)
  · refine hplain (gives_then fun argument => ?_)
    cases argument with
    | none => exact ends_pure.2 rfl
    | some argument =>
      refine gives_then fun s => ends_pure.2 ?_
      rw [String.append_assoc]
      exact isPlainStart_append rfl _
  · refine hplain (gives_then fun _ => gives_then fun s => ends_pure.2 ?_)
    rw [String.append_assoc]
    exact isPlainStart_append rfl _
  · exact hplain (gives_jump_plain rfl)
  · exact hplain (gives_jump_plain rfl)
  · refine hplain ((gives_namedText "label").bind fun label ⟨v, hv, hname⟩ => gives_then fun _ => gives_then fun s => ends_pure.2 ?_)
    rw [String.append_assoc]
    exact isPlainStart_append (h.named "label" (by decide) v label hv hname) _
  · exact hplain gives_branch_plain
  · exact hplain gives_countedLoop_plain
  · exact hplain gives_eachLoop_plain
  · exact hplain gives_eachLoop_plain
  · exact hplain gives_whileLoop_plain
  · exact hplain gives_doLoop_plain
  · exact hplain gives_tryStatement_plain
  · exact hplain gives_switchStatement_plain
  · trivial

/-- A string is not mistaken for another statement. -/
theorem startsAmbiguously_of_string {s : String} (h : isStringToken s = true) : startsAmbiguously s = false := by
  have hplain : ∀ start ∈ ambiguousStarts, isPlainStart start = true := by decide
  refine List.any_eq_false.2 fun start hstart hprefix => ?_
  obtain ⟨rest, hrest⟩ := List.isPrefixOf_iff_prefix.1 hprefix
  have hs : s = start ++ String.ofList rest := by
    rw [← String.toList_inj, String.toList_append, String.toList_ofList, hrest]
  have hopens := isPlainStart_append (hplain start hstart) (String.ofList rest)
  rw [← hs, isPlainStart_of_string h] at hopens
  cases hopens

/-- A statement that is a string is printed as it was written. -/
theorem statement_string {literal : Fields Json} {raw : String} (htype : Fields.type? fields = some "ExpressionStatement")
    (hexpression : Fields.get? "expression" fields = some (.obj literal)) (hliteral : Fields.type? literal = some "Literal")
    (hraw : Fields.get? "raw" literal = some (.str raw)) (hstring : isStringToken raw = true) (place : Place) :
    Printable.statement place (printable (.obj fields)) = .ok (raw ++ ";") := by
  obtain ⟨content, hcontent, -⟩ := directive_printed fields
  have hne : raw ≠ "" := by
    rintro rfl
    cases hstring
  have hstatement : Printable.statement place (printable (.obj fields)) = expressionStatement place (printed fields) :=
    statement_printed htype place
  rw [hstatement, expressionStatement, hcontent, ok_bind]
  split
  · next content _ =>
    have htruthy : (layer (printable (.str raw))).truthy = true := bne_iff_ne.2 hne
    rw [directive, require_printed hexpression, ok_bind, layer_printable, optional_printed hraw (by simp), ok_bind]
    simp only [htruthy, if_true]
    rfl
  · have hfragment : Printable.fragment place (printable (.obj literal)) = .ok ⟨.str raw, .primary⟩ := by
      have hfragment : Printable.fragment place (printable (.obj literal)) =
          (do return ⟨← Printable.literal (printed literal), .primary⟩) :=
        fragment_printed hliteral place
      rw [hfragment, Prints.literal_printed hraw]
      rfl
    have hloose : ¬ Precedence.primary < Precedence.sequence := by decide
    rw [require_printed hexpression, ok_bind, Printable.expression, hfragment, ok_bind]
    simp only [if_neg hloose, pure_eq_ok, ok_bind, startsAmbiguously_of_string hstring]
    rfl

end Openings

end ScriptTrace
