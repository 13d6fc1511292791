import ScriptTrace.Proofs.Generation
import ScriptTrace.Proofs.OpeningText
import ScriptTrace.Proofs.Redeclarations

/-!
# The prologues of programs and functions

The directives of a program or of a function are the strings that stand in front of its statements. Of the printed
statements it is again the strings in front that are its directives, so these have to be those of the tree.

* `Json.Spelled` : a tree whose words are spelled as words and whose strings are spelled as strings;
* `prologue`, `strings` : the directives of a list of statements, and the strings that stand behind them;
* `Rewrites.opened` : what becomes of a spelled value opens as it did;
* `PrintedTexts` : the texts of statements, one for each of them, so that a run in front of them is a maximal one;
* `weave_strings`, `PrintedTexts.strings_front` : the strings in front of woven statements, and of printed ones;
* `instrument_prologues` : the prologues of an instrumented program, and of its functions.
-/

namespace ScriptTrace

open Probe Printable Rewriting

/-! ## Spelled trees -/

namespace Grammar

/-- Whether the texts of a node are spelled as its type asks for: words without quotes, strings in quotes, and two or more
expressions in a sequence. A statement with the text of a directive is a string. -/
def isSpelled (fields : Fields Json) : Bool :=
  (["name", "operator", "kind"].all fun key => ((Fields.get? key fields).bind Json.string?).all isPlainStart) &&
    match Fields.type? fields with
    | some "Literal" => isWritten fields
    | some "SequenceExpression" => 2 ≤ (Json.field "expressions" (.obj fields)).items.length
    | some "ExpressionStatement" =>
      !(Json.field "directive" (.obj fields)).string?.isSome || isStringLiteral (Json.field "expression" (.obj fields))
    | _ => true

end Grammar

namespace Json

/-- A value with texts as a parser reads them. -/
def Spelled (j : Json) : Prop := j.everyObject Grammar.isSpelled = true

instance (j : Json) : Decidable j.Spelled := inferInstanceAs (Decidable (_ = _))

variable {fields : Fields Json} {key : String} {v : Json}

theorem Spelled.here (h : (Json.obj fields).Spelled) : Grammar.isSpelled fields = true := (everyObject_obj.1 h).1

theorem Spelled.field (h : (Json.obj fields).Spelled) (hv : Fields.get? key fields = some v) : v.Spelled := everyObject_get? h hv

theorem Spelled.item {items : List Json} (h : (Json.arr items).Spelled) (hv : v ∈ items) : v.Spelled := everyObject_arr.1 h v hv

/-- The words of a spelled node have no quotes. -/
theorem Spelled.word (h : (Json.obj fields).Spelled) (hkey : key ∈ ["name", "operator", "kind"]) {s : String}
    (hs : Fields.get? key fields = some (.str s)) : isPlainStart s = true := by
  have hword := List.all_eq_true.1 (Bool.and_eq_true_iff.1 h.here).1 key hkey
  rwa [hs] at hword

theorem Spelled.literal (h : (Json.obj fields).Spelled) (htype : Fields.type? fields = some "Literal") :
    isWritten fields = true := by
  have hhere := (Bool.and_eq_true_iff.1 h.here).2
  rwa [htype] at hhere

theorem Spelled.sequence (h : (Json.obj fields).Spelled) (htype : Fields.type? fields = some "SequenceExpression") :
    2 ≤ (Json.field "expressions" (.obj fields)).items.length := by
  have hhere := (Bool.and_eq_true_iff.1 h.here).2
  rw [htype] at hhere
  exact of_decide_eq_true hhere

theorem Spelled.directive (h : (Json.obj fields).Spelled) (htype : Fields.type? fields = some "ExpressionStatement")
    (hdirective : (Json.field "directive" (.obj fields)).string?.isSome = true) :
    isStringLiteral (Json.field "expression" (.obj fields)) = true := by
  have hhere := (Bool.and_eq_true_iff.1 h.here).2
  rw [htype] at hhere
  simpa only [hdirective, Bool.not_true, Bool.false_or] using hhere

end Json

/-- Whether a statement has the text of a directive, be it empty. -/
def hasDirective (s : Json) : Bool := (s.field "directive").string?.isSome

/-- The directives in front of statements. -/
def prologue (statements : List Json) : List Json := statements.takeWhile hasDirective

/-- The strings that stand as statements right behind the directives. -/
def strings (statements : List Json) : List Json := (statements.dropWhile hasDirective).takeWhile isStringStatement

/-! ## Openings of what is rewritten -/

/-- A value that opens as its own node tells, if it is a node. -/
def Opened (v : Json) : Prop := ∀ fields type, v = .obj fields → Fields.type? fields = some type → Opening type fields

/-- The same of a value and of the first item of a list. -/
def OpensFirst (v : Json) : Prop := Opened v ∧ ∀ x ∈ v.items.head?, Opened x

section Opened

variable {code : Option String} {m : Mode} {classes : List Json} {up : Option Json} {type key : String} {name v w : Json}
  {fields made out : Fields Json}

/-- What a field of a rewritten node was made from. -/
theorem RewrittenNode.exists_before (hnode : RewrittenNode code classes up type name fields made out) {o : Json}
    (ho : Fields.get? key out = some o) : ∃ v w, Fields.get? key (completed type fields) = some v ∧
      Fields.get? key (prepared type fields) = some (readyField type key v) ∧ Fields.get? key made = some w ∧
      Rewriting.Frame code classes up type fields made (frameKind type key) w o := by
  obtain ⟨v, hv⟩ := Fields.exists_get?_of_names hnode.names_completed.symm ho
  obtain ⟨w, hprepared, hw, hframe⟩ := hnode.exists_made hv ho
  exact ⟨v, w, hv, hprepared, hw, hframe⟩

/-- A literal is kept, so what becomes of a value stands for a string when the value does. -/
theorem Rewrites.isStringLiteral_eq (h : Rewrites code .visited classes up v w) (hv : v.Proper) :
    isStringLiteral w = isStringLiteral v := by
  by_cases hliteral : v.type? = some "Literal"
  · cases v with
    | obj fields => rw [literal_kept hv hliteral h]
    | _ => cases hliteral
  · rw [isStringLiteral, isStringLiteral, h.type?_eq, beq_false_of_ne hliteral, Bool.false_and, Bool.false_and]

/-- The fields that are printed first hold nodes, which are visited. -/
theorem leadKey_spec (h : leadKey type = some key) : isVisited type key = true ∧ key ∉ ["consequent", "alternate", "body"] ∧
    (key = "expression" → type ∉ functionTypes) ∧ (frameKind type key = .same ∨ frameKind type key = .callee) ∧
    ∃ types, (Grammar.shape type).bind (Fields.get? key) = some (.node types) := by
  have hall : ∀ g ∈ [(["TaggedTemplateExpression"], "tag"), (["MemberExpression"], "object"), (["CallExpression"], "callee"),
      (["BinaryExpression", "LogicalExpression", "AssignmentExpression", "AssignmentPattern"], "left"),
      (["ConditionalExpression"], "test"), (["UpdateExpression"], "argument"), (["ExpressionStatement"], "expression")],
      ∀ t ∈ g.1, isVisited t g.2 = true ∧ g.2 ∉ ["consequent", "alternate", "body"] ∧ t ∉ functionTypes ∧
        (frameKind t g.2 = .same ∨ frameKind t g.2 = .callee) ∧
        ((Grammar.shape t).bind (Fields.get? g.2)).any Slot.isNode = true := by decide
  obtain ⟨g, hg, hmem, rfl⟩ := ofGroup_mem_types h
  obtain ⟨hvisited, hready, hfunction, hkind, hslot⟩ := hall g hg type hmem
  obtain ⟨slot, hslot, hnode⟩ := (Option.any_eq_true _ _).1 hslot
  obtain ⟨types, rfl⟩ := Slot.exists_of_isNode hnode
  exact ⟨hvisited, hready, fun _ => hfunction, hkind, types, hslot⟩

/-- Only bodies and the statements of a case are lists of statements. -/
theorem mode_ne_statements_of_key (hkey : key ∉ ["consequent", "alternate", "body"]) : mode type fields key ≠ .statements := by
  simp only [List.mem_cons, List.not_mem_nil, or_false, not_or] at hkey
  rw [mode, if_neg (by simp [hkey])]
  split <;> split <;> exact Mode.noConfusion

theorem mode_visited (hvisited : isVisited type key = true) (hkey : key ∉ ["consequent", "alternate", "body"]) :
    mode type fields key = .visited := by
  have hlists : mode type fields key ≠ .statements := mode_ne_statements_of_key hkey
  rw [mode_of_isVisited hvisited] at hlists ⊢
  split
  · next hlist => exact absurd (if_pos hlist) hlists
  · rfl

theorem Opened.opensAs (h : Opened w) (htype : w.type? = some type) : OpensAs w := by
  cases w with
  | obj fields => exact (h fields type rfl htype).opensAs
  | _ => cases htype

section Nodes

variable (hnode : RewrittenNode code classes up type name fields made out) (hspelled : (Json.obj fields).Spelled)
  (hbelow : ∀ key v w, Fields.get? key (prepared type fields) = some v → Fields.get? key made = some w →
    mode type fields key = .visited → v.Proper → v.Spelled → OpensFirst w)

include hnode hspelled

/-- The names in a node are kept. -/
theorem RewrittenNode.opening_named (hkey : key ∈ ["meta", "label"]) {o : Json} {s : String} (ho : Fields.get? key out = some o)
    (hs : o.get? "name" = some (.str s)) : isPlainStart s = true := by
  have hall : ∀ k ∈ ["meta", "label"], k ∉ ["consequent", "alternate", "body"] ∧ ∀ g ∈ frameTable, Fields.get? k g.2 = none := by decide
  obtain ⟨hready, hsame⟩ := hall key hkey
  obtain ⟨v, w, hv, hprepared, hw, hframe⟩ := hnode.exists_before ho
  rw [frameKind_eq_same hsame, Rewriting.Frame.same_iff] at hframe
  have hrw := hnode.field key _ w hprepared hw
  rw [readyField_eq_self hready] at hrw
  rw [hframe, hrw.get?_plain "name" (mode_ne_statements_of_key hready) (by decide)] at hs
  rcases get?_of_completed hv with hv | rfl | rfl
  · cases v with
    | obj named => exact (hspelled.field hv).word (by decide) hs
    | _ => cases hs
  · cases hs
  · cases hs

include hbelow

/-- What is printed first opens as its own node tells. -/
theorem RewrittenNode.opening_lead (hkey : leadKey type = some key) {o : Json} (ho : Fields.get? key out = some o) : OpensAs o := by
  obtain ⟨hvisited, hready, hfunction, hkind, types, hslot⟩ := leadKey_spec hkey
  obtain ⟨slots, hshape, hslot⟩ := Option.bind_eq_some_iff.1 hslot
  obtain ⟨lead, ltype, hlead, hltype, -⟩ := Json.fits_node (hnode.proper.fits key hnode.type hshape hslot)
  obtain ⟨w, hprepared, hw, hframe⟩ := hnode.exists_made (get?_completed hfunction hlead) ho
  have hmode : mode type fields key = .visited := mode_visited hvisited hready
  have hrw := hnode.field key _ w hprepared hw
  rw [readyField_eq_self hready] at hprepared hrw
  have hopens : OpensAs w := (hbelow key _ w hprepared hw hmode (hnode.proper.field hlead) (hspelled.field hlead)).1.opensAs
    (hrw.type?_eq.trans hltype)
  rcases hkind with hkind | hkind
  · rw [hkind, Rewriting.Frame.same_iff] at hframe
    exact hframe ▸ hopens
  · rw [hkind] at hframe
    cases hframe with
    | printer => exact opensAs_ident rfl
    | callee => exact hopens

/-- The first expression of a sequence opens as its own node tells. -/
theorem RewrittenNode.opening_items (hsequence : type = "SequenceExpression") : ∃ v w vs,
    Fields.get? "expressions" out = some (.arr (v :: w :: vs)) ∧ OpensAs v := by
  subst hsequence
  have hlength := hspelled.sequence hnode.type
  obtain ⟨items, hitems, hnodes⟩ := Json.fits_list (hnode.proper.fits "expressions" hnode.type rfl rfl)
  rw [Json.field_of_get? hitems] at hlength
  obtain ⟨w, hprepared, hw, ho⟩ := Unframed.exists_child (by decide) hnode.names_made hnode.names_out hnode.frame hitems
  have hfirst := (hbelow _ _ w hprepared hw rfl (hnode.proper.field hitems) (hspelled.field hitems)).2
  have hrw : Rewrites code .visited _ _ (.arr items) w := hnode.field _ _ w hprepared hw
  cases hrw with
  | value _ _ _ _ hlist => exact absurd rfl (hlist items)
  | items _ _ _ ws hlen h =>
    match items, ws with
    | y :: z :: ys, v :: w :: vs =>
      refine ⟨v, w, vs, ho, ?_⟩
      obtain ⟨first, type, rfl, htype, -⟩ := Json.isOneOf_iff.1 (hnodes y List.mem_cons_self)
      have hv := h (.obj first, v) List.mem_cons_self (Json.isNode_of_type? (j := .obj first) htype)
      exact (hfirst v rfl).opensAs (hv.type?_eq.trans htype)

end Nodes

/-- What becomes of a spelled value opens as it did. -/
theorem Rewrites.opened (h : Rewrites code m classes up v w) (hm : m = .visited) (hproper : v.Proper) (hspelled : v.Spelled) :
    OpensFirst w := by
  induction h with
  | kept => cases hm
  | statements => cases hm
  | value _ _ v hnode hlist =>
    refine ⟨?_, ?_⟩
    · rintro fields type rfl htype
      rw [Json.isNode_of_type? (j := .obj fields) htype] at hnode
      cases hnode
    · intro x hx
      cases v with
      | arr items => exact absurd rfl (hlist items)
      | _ => cases hx
  | items _ _ vs ws hlen _ hother ih =>
    refine ⟨nofun, fun x hx => ?_⟩
    cases ws with
    | nil => cases hx
    | cons x xs =>
      cases hx
      obtain ⟨y, ys, rfl⟩ := List.exists_cons_of_length_eq_add_one hlen
      have hmem : (y, x) ∈ (y :: ys).zip (x :: xs) := List.mem_cons_self
      cases hnode : y.isNode with
      | true => exact (ih _ hmem hnode rfl (hproper.item List.mem_cons_self) (hspelled.item List.mem_cons_self)).1
      | false =>
        obtain rfl : x = y := hother _ hmem hnode
        rintro fields type rfl htype
        rw [Json.isNode_of_type? (j := .obj fields) htype] at hnode
        cases hnode
  | node classes up type name fields made out htype _ hname hmade h hout hframe ih =>
    have hnode : RewrittenNode code classes up type name fields made out := ⟨htype, hproper, hname, hmade, hout, h, hframe⟩
    refine ⟨?_, nofun⟩
    rintro _ type' ⟨⟩ htype'
    obtain rfl : type = type' := Option.some.inj (hnode.type?_out.symm.trans htype')
    exact {
      typed := htype'
      word := fun key hkey s hs => by
        have hplain : ∀ k ∈ ["name", "operator", "kind"], k ∈ plainKeys := by decide
        rw [hnode.get?_plain key (hplain key hkey)] at hs
        exact hspelled.word hkey hs
      written := fun hliteral => by
        subst hliteral
        cases literal_kept hproper htype hnode.rewrites
        exact hspelled.literal htype
      named := fun key hkey o s ho hs => hnode.opening_named hspelled hkey ho hs
      lead := fun key o hkey ho => hnode.opening_lead hspelled ih hkey ho
      items := hnode.opening_items hspelled ih }

end Opened

/-! ## Strings as statements -/

open Printable

/-- The texts of statements at a place, one for each statement. -/
def PrintedTexts (place : Place) (statements : List Json) (texts : List String) : Prop :=
  List.Forall₂ (fun s text => Printable.statement place (printable s) = .ok text) statements texts

/-- A statement that is printed as something else than a string. -/
def PrintsOther (s : Json) : Prop := ∀ place, Gives (Printable.statement place (printable s)) (isDirectiveText · = false)

section Statements

variable {code : Option String} {classes : List Json} {up : Option Json} {s t : Json} {place : Place}

/-- The parts of a string that stands as a statement. -/
theorem exists_string (hproper : s.Proper) (hspelled : s.Spelled) (h : isStringStatement s = true) :
    ∃ fields literal raw, s = .obj fields ∧ Fields.type? fields = some "ExpressionStatement" ∧
      Fields.get? "expression" fields = some (.obj literal) ∧ Fields.type? literal = some "Literal" ∧
      Fields.get? "raw" literal = some (.str raw) ∧ isStringToken raw = true := by
  cases s with
  | obj fields =>
    obtain ⟨htype, hstring⟩ := Bool.and_eq_true_iff.1 h
    have htype : Fields.type? fields = some "ExpressionStatement" := eq_of_beq htype
    obtain ⟨literal, ltype, hliteral, hltype, -⟩ := Json.fits_node (hproper.fits "expression" htype rfl rfl)
    rw [Json.field_of_get? hliteral] at hstring
    obtain ⟨hword, hvalue⟩ := Bool.and_eq_true_iff.1 hstring
    obtain rfl : ltype = "Literal" := Option.some.inj (hltype.symm.trans (eq_of_beq hword))
    have hwritten := (hspelled.field hliteral).literal hltype
    rw [isWritten, if_pos hvalue] at hwritten
    obtain ⟨raw, hraw, htoken⟩ := (Option.any_eq_true _ _).1 hwritten
    obtain ⟨v, hv, hstr⟩ := Option.bind_eq_some_iff.1 hraw
    cases v with
    | str text =>
      cases hstr
      exact ⟨fields, literal, raw, rfl, htype, hliteral, hltype, hv, htoken⟩
    | _ => cases hstr
  | _ => cases h

/-- A string that stands as a statement is printed as it was written, so it is a directive where it comes early enough. -/
theorem string_printed (hproper : s.Proper) (hspelled : s.Spelled) (h : isStringStatement s = true) (place : Place) :
    Printable.statement place (printable s) = .ok (stringText s) ∧ isDirectiveText (stringText s) = true := by
  obtain ⟨fields, literal, raw, rfl, htype, hliteral, hltype, hraw, htoken⟩ := exists_string hproper hspelled h
  have htext : stringText (.obj fields) = raw ++ ";" := by
    rw [stringText, Json.field_of_get? hliteral, Json.field_of_get? hraw]
    rfl
  rw [htext, isDirectiveText_semicolon]
  exact ⟨statement_string htype hliteral hltype hraw htoken place, htoken⟩

/-- A statement with the text of a directive is a string. -/
theorem isStringStatement_of_hasDirective (hproper : s.Proper) (hnode : s.isNode = true) (hspelled : s.Spelled)
    (h : hasDirective s = true) : isStringStatement s = true := by
  cases s with
  | obj fields =>
    obtain ⟨type, htype⟩ := hproper.exists_type hnode
    obtain ⟨directive, hdirective⟩ : ∃ v, Fields.get? "directive" fields = some v := by
      rw [hasDirective, Json.field, Json.get?] at h
      cases hv : Fields.get? "directive" fields with
      | none => rw [hv] at h; cases h
      | some v => exact ⟨v, rfl⟩
    obtain rfl := type_of_directive hproper htype hdirective
    rw [isStringStatement, show (Json.obj fields).type? = some "ExpressionStatement" from htype, beq_self_eq_true, Bool.true_and]
    exact hspelled.directive htype h
  | _ => cases hnode

/-- A directive has its text. -/
theorem hasDirective_of_isDirective (hproper : s.Proper) (hnode : s.isNode = true) (h : isDirective s = true) :
    hasDirective s = true := by
  cases s with
  | obj fields =>
    obtain ⟨type, htype⟩ := hproper.exists_type hnode
    obtain ⟨rfl, -⟩ := exists_literal hproper htype h
    have hfits := hproper.fits "directive" htype rfl rfl
    rw [isDirective, Json.field, Json.get?] at h
    rw [hasDirective, Json.field, Json.get?]
    cases hv : Fields.get? "directive" fields with
    | none => rw [hv] at h; cases h
    | some v =>
      rw [hv] at h hfits
      cases v with
      | str text => rfl
      | null => cases h
      | _ => cases hfits
  | _ => cases hnode

/-- What becomes of a statement is a string when the statement is. -/
theorem Rewrites.isStringStatement_eq (h : Rewrites code .visited classes up s t) (hproper : s.Proper) :
    isStringStatement t = isStringStatement s := by
  rw [isStringStatement, isStringStatement, h.type?_eq]
  by_cases htype : s.type? = some "ExpressionStatement"
  · cases s with
    | obj fields =>
      obtain ⟨expression, etype, hexpression, -⟩ := Json.fits_node (hproper.fits "expression" htype rfl rfl)
      obtain ⟨name, made, out, rfl, hnode⟩ := h.exists_node htype
      obtain ⟨w, hprepared, hw, ho⟩ := Unframed.exists_child (by decide) hnode.names_made hnode.names_out hnode.frame hexpression
      have hrw : Rewrites code .visited _ _ (.obj expression) w := hnode.field _ _ w hprepared hw
      rw [Json.field_of_get? hexpression, Json.field_of_get? ho, hrw.isStringLiteral_eq (hproper.field hexpression)]
    | _ => cases htype
  · rw [beq_false_of_ne htype, Bool.false_and, Bool.false_and]

/-- What becomes of a statement is printed as a string only if the statement is one. -/
theorem Rewrites.printsOther (h : Rewrites code .visited classes up s t) (hproper : s.Proper) (hnode : s.isNode = true)
    (hspelled : s.Spelled) (hstring : isStringStatement s = false) : PrintsOther t := by
  have hdirective : isDirective t = false := by
    rw [isDirective, Json.field, h.get?_plain "directive" (by decide) (by decide), ← Json.field]
    by_contra hd
    have hhas := hasDirective_of_isDirective hproper hnode ((Bool.not_eq_false _).mp hd)
    rw [isStringStatement_of_hasDirective hproper hnode hspelled hhas] at hstring
    cases hstring
  cases s with
  | obj fields =>
    obtain ⟨type, htype⟩ := hproper.exists_type hnode
    obtain ⟨name, made, out, rfl, hout⟩ := h.exists_node htype
    intro place
    rw [statement_printed hout.type?_out]
    have hopening : Opening type out := (h.opened rfl hproper hspelled).1 out type rfl hout.type?_out
    exact hopening.gives_statementOf hdirective ((h.isStringStatement_eq hproper).trans hstring)
  | _ => cases hnode

theorem printsOther_statement (kind : String) (line : Json) (pairs : List (String × Json)) :
    PrintsOther (Probe.statement kind line pairs) := fun place => by
  have hrecord : OpensAs (Probe.record kind line pairs) := opensAs_callOf rfl _
  have hopening := opening_expressionStatement hrecord
  rw [Probe.statement, Json.expressionStatement, statement_printed hopening.typed]
  exact hopening.gives_statementOf rfl rfl

/-- The strings in front of woven statements are those in front of the statements. -/
theorem weave_strings {ss ts : List Json} (h : List.Forall₂ (Rewrites code .visited classes none) ss ts)
    (hss : ∀ s ∈ ss, s.Proper ∧ s.isNode = true ∧ s.Spelled) : ∃ rest,
      weave ss ts = ss.takeWhile isStringStatement ++ rest ∧ ∀ r ∈ rest.head?, PrintsOther r := by
  induction h with
  | nil => exact ⟨[], rfl, nofun⟩
  | @cons s t ss ts hst hrest ih =>
    obtain ⟨⟨hproper, hnode, hspelled⟩, hss⟩ := List.forall_mem_cons.1 hss
    have hweave : weave (s :: ss) (t :: ts) = s.declares ++ t :: s.writesAfter ++ weave ss ts := rfl
    cases hstring : isStringStatement s with
    | true =>
      obtain ⟨rest, hbelow, hhead⟩ := ih hss
      obtain ⟨fields, literal, -, rfl, htype, hliteral, hltype, -⟩ := exists_string hproper hspelled hstring
      obtain ⟨hdeclares, hafter, hkept⟩ := literalStatement_kept code hproper htype hliteral hltype
      refine ⟨rest, ?_, hhead⟩
      rw [hweave, hdeclares, hafter, hkept hst, hbelow, List.takeWhile_cons_of_pos hstring]
      rfl
    | false =>
      refine ⟨_, by rw [List.takeWhile_cons_of_neg (Bool.eq_false_iff.1 hstring), List.nil_append], fun r hr => ?_⟩
      rw [hweave] at hr
      cases hdeclares : s.declares with
      | nil =>
        rw [hdeclares] at hr
        cases hr
        exact hst.printsOther hproper hnode hspelled hstring
      | cons d ds =>
        have hd : d ∈ s.declares := hdeclares ▸ List.mem_cons_self
        obtain ⟨-, line, name, rfl⟩ := exists_of_mem_declares hd
        rw [hdeclares] at hr
        cases hr
        exact printsOther_statement _ _ _

theorem printedTexts_of_mapM {statements : List Json} {texts : List String}
    (h : (statements.map printable).mapM (Printable.statement place) = .ok texts) : PrintedTexts place statements texts :=
  List.forall₂_map_left_iff.1 (mapM_eq_ok.1 h)

/-- Printed statements: the strings in front, then something else. -/
theorem PrintedTexts.strings_front {front rest : List Json} {texts : List String} (h : PrintedTexts place (front ++ rest) texts)
    (hfront : ∀ s ∈ front, Printable.statement place (printable s) = .ok (stringText s) ∧ isDirectiveText (stringText s) = true)
    (hrest : ∀ r ∈ rest.head?, PrintsOther r) : texts.takeWhile isDirectiveText = front.map stringText := by
  induction front generalizing texts with
  | nil =>
    cases h with
    | nil => rfl
    | cons hprinted =>
      have hother := hrest _ rfl place
      rw [hprinted] at hother
      exact List.takeWhile_cons_of_neg (Bool.eq_false_iff.1 hother)
  | cons s front ih =>
    obtain ⟨⟨hs, htext⟩, hfront⟩ := List.forall_mem_cons.1 hfront
    obtain ⟨text, below, hprinted, hbelow, rfl⟩ := List.forall₂_cons_left_iff.1 h
    obtain rfl : stringText s = text := Except.ok.inj (hs.symm.trans hprinted)
    rw [List.takeWhile_cons_of_pos htext, ih hbelow hfront, List.map_cons]

end Statements

/-! ## Programs and functions -/

section Lists

variable {code : Option String} {classes : List Json} {up : Option Json} {type : String} {name : Json}
  {fields made out : Fields Json}

theorem takeWhile_prologue {ss : List Json} (h : ∀ s ∈ ss, isDirective s = true → hasDirective s = true) :
    (prologue ss).takeWhile isDirective = ss.takeWhile isDirective := by
  induction ss with
  | nil => rfl
  | cons s ss ih =>
    obtain ⟨hs, hss⟩ := List.forall_mem_cons.1 h
    have ih := ih hss
    unfold prologue at ih ⊢
    cases hd : isDirective s with
    | true => rw [List.takeWhile_cons_of_pos (hs hd), List.takeWhile_cons_of_pos hd, List.takeWhile_cons_of_pos hd, ih]
    | false =>
      have hnot : ¬ isDirective s = true := Bool.eq_false_iff.1 hd
      rw [List.takeWhile_cons_of_neg hnot, List.takeWhile_cons]
      split
      · exact List.takeWhile_cons_of_neg hnot
      · rfl

/-- Directives are strings, so the strings in front of statements are the directives and what stands right behind. -/
theorem takeWhile_strings {ss : List Json} (h : ∀ s ∈ ss, hasDirective s = true → isStringStatement s = true) :
    ss.takeWhile isStringStatement = prologue ss ++ strings ss := by
  induction ss with
  | nil => rfl
  | cons s ss ih =>
    obtain ⟨hs, hss⟩ := List.forall_mem_cons.1 h
    have ih := ih hss
    unfold prologue strings at ih ⊢
    cases hd : hasDirective s with
    | true =>
      rw [List.takeWhile_cons_of_pos (hs hd), List.takeWhile_cons_of_pos hd, List.dropWhile_cons_of_pos hd, ih, List.cons_append]
    | false =>
      have hnot : ¬ hasDirective s = true := Bool.eq_false_iff.1 hd
      rw [List.takeWhile_cons_of_neg hnot, List.dropWhile_cons_of_neg hnot, List.nil_append]

/-- The statements of a function, with an expression that it answers as a return. -/
def bodyStatements (fields : Fields Json) : List Json := ((bodyBlock (Json.field "body" (.obj fields))).field "body").items

/-- The body of a spelled function is spelled, also when it is an expression. -/
theorem Json.Spelled.bodyBlock {body : Json} (h : body.Spelled) : (bodyBlock body).Spelled := by
  unfold Rewriting.bodyBlock
  split
  · exact h
  · have hreturn : (returnOf body).Spelled := Json.everyObject_obj.2 ⟨rfl, fun f hf => by
      simp only [List.mem_cons, List.not_mem_nil, or_false] at hf
      rcases hf with rfl | rfl | rfl
      · rfl
      · exact h
      · exact Json.everyObject_field h "loc"⟩
    refine Json.everyObject_obj.2 ⟨rfl, fun f hf => ?_⟩
    simp only [List.mem_cons, List.not_mem_nil, or_false] at hf
    rcases hf with rfl | rfl
    · rfl
    · exact Json.everyObject_arr.2 fun x hx => List.mem_singleton.1 hx ▸ hreturn

/-- The strings in front of the body of a function are its directives, up to the first empty one. -/
theorem RewrittenNode.body_texts (hnode : RewrittenNode code classes up type name fields made out) (hfunction : type ∈ functionTypes)
    (hspelled : (Json.obj fields).Spelled) {place : Place} {text : String} (h : Printable.body place (printed out) = .ok text) :
    ∃ texts, PrintedTexts place.deeper (bodyStatements out) texts ∧ text = braced place texts ∧
      texts.takeWhile isDirectiveText = ((prologue (bodyStatements fields)).takeWhile isDirective).map stringText := by
  obtain ⟨block, ss, ts, line, endLine, fname, params, ho, htype, hblock, hss, htake, hproper⟩ := hnode.exists_guardedBlock hfunction
  generalize hitems : functionBody line endLine fname params (weave ss ts) = items at hblock
  have hout : bodyStatements out = items := by
    rw [bodyStatements, Json.field_of_get? ho, bodyBlock_of_block htype, Json.field_of_get? hblock]
    rfl
  have hstatements : bodyStatements fields = ss := by
    rw [bodyStatements, hss]
    rfl
  have hsspelled : (Json.arr ss).Spelled :=
    hss ▸ Json.everyObject_field (Json.Spelled.bodyBlock (Json.everyObject_field hspelled "body")) "body"
  have hhas : ∀ s ∈ ss, isDirective s = true → hasDirective s = true := fun s hs =>
    hasDirective_of_isDirective (hproper s hs).1 (hproper s hs).2
  rw [Printable.body, require_printed ho, ok_bind, layer_printable,
    block_printed hblock (by simp [← hitems, functionBody])] at h
  obtain ⟨texts, htexts, rfl⟩ := exists_braced h
  have htexts : PrintedTexts place.deeper items texts := printedTexts_of_mapM htexts
  refine ⟨texts, hout.symm ▸ htexts, rfl, ?_⟩
  rw [← hitems, functionBody, htake] at htexts
  rw [hstatements, takeWhile_prologue hhas]
  refine htexts.strings_front (fun s hs => ?_) (fun r hr => ?_)
  · have hmem : s ∈ ss := (List.takeWhile_prefix isDirective).subset hs
    have hdirective := hhas s hmem (List.all_eq_true.1 List.all_takeWhile s hs)
    obtain ⟨hsproper, hsnode⟩ := hproper s hmem
    exact string_printed hsproper (hsspelled.item hmem)
      (isStringStatement_of_hasDirective hsproper hsnode (hsspelled.item hmem) hdirective) _
  · cases hr
    exact printsOther_statement _ _ _

/-- There is a text of the body of a sound function. -/
theorem RewrittenNode.exists_bodyText (hnode : RewrittenNode code classes up type name fields made out)
    (hfunction : type ∈ functionTypes) (hsound : (Json.obj out).Sound) (place : Place) :
    ∃ text, Printable.body place (printed out) = .ok text := by
  obtain ⟨block, -, -, -, -, -, -, ho, htype, -⟩ := hnode.exists_guardedBlock hfunction
  have hblock : (Json.obj block).isOneOf ["BlockStatement"] = true := by
    rw [Json.isOneOf_obj htype]
    rfl
  obtain ⟨_, hl⟩ := ((hsound.field ho).is hblock).layer
  rw [Printable.body, require_printed ho, ok_bind]
  obtain ⟨text, htext, -⟩ := (succeeds_block hl).exists_ok
  exact ⟨text, htext⟩

/-- The strings in front of a program are its directives and the strings right behind. -/
theorem RewrittenNode.program_texts (hnode : RewrittenNode code classes up "Program" name fields made out)
    (hspelled : (Json.obj fields).Spelled) {printedForm : Json} (h : printNode (.obj out) = .ok printedForm) : ∃ texts,
      PrintedTexts .top (Json.field "body" (.obj out)).items texts ∧ printedForm = .str ("\n".intercalate texts) ∧
        texts.takeWhile isDirectiveText = (prologue (Json.field "body" (.obj fields)).items ++ strings (Json.field "body" (.obj fields)).items).map stringText := by
  obtain ⟨ss, ts, hss, hts, hrewritten⟩ := hnode.exists_weave "body" rfl
  have hstatements : ∀ s ∈ ss, s.Proper ∧ s.isNode = true ∧ s.Spelled := by
    obtain ⟨-, ss', hss', hnodes⟩ := exists_list "body" hnode.proper hnode.type rfl
    cases hss.symm.trans hss'
    exact fun s hs => ⟨(hnode.proper.field hss).item hs, hnodes s hs, (hspelled.field hss).item hs⟩
  obtain ⟨rest, hweave, hrest⟩ := weave_strings hrewritten hstatements
  have hprogram : printNode (.obj out) = (do
      let texts ← (← (printed out).elementsOf "body").mapM (Printable.statement .top)
      return .str ("\n".intercalate texts)) := by
    unfold printNode
    extract_lets p
    rw [show layer p = printed out from layer_printable out, require_printed (Fields.get?_of_type? hnode.type?_out), ok_bind]
    rfl
  rw [hprogram, Prints.elements_printed hts, ok_bind] at h
  obtain ⟨texts, htexts, h⟩ := bind_eq_ok.1 h
  have htexts : PrintedTexts .top (weave ss ts) texts := printedTexts_of_mapM htexts
  refine ⟨texts, by rw [Json.field_of_get? hts]; exact htexts, (Except.ok.inj h).symm, ?_⟩
  rw [Json.field_of_get? hss, Json.items, ← takeWhile_strings fun s hs => isStringStatement_of_hasDirective
    (hstatements s hs).1 (hstatements s hs).2.1 (hstatements s hs).2.2]
  rw [hweave] at htexts
  refine htexts.strings_front (fun s hs => ?_) hrest
  obtain ⟨hsproper, -, hsspelled⟩ := hstatements s ((List.takeWhile_prefix isStringStatement).subset hs)
  exact string_printed hsproper hsspelled (List.all_eq_true.1 List.all_takeWhile s hs) _

end Lists

/-- Of the texts of its statements, the strings in front of an instrumented program are its directives and the strings that
stand right behind them. Those in front of the body of a function are its directives, up to the first one that is empty. -/
theorem instrument_prologues {tree out : Json} {code : Option String} (h : tree.WellFormed) (hspelled : tree.Spelled)
    (hrun : instrument tree code = .ok out) :
    (tree.Supported → ∃ text, printNode out = .ok (.str text)) ∧
    (Gives (printNode out) fun j => ∃ texts, PrintedTexts .top (out.field "body").items texts ∧ j = .str ("\n".intercalate texts) ∧
      texts.takeWhile isDirectiveText = (prologue (tree.field "body").items ++ strings (tree.field "body").items).map stringText) ∧
    List.Forall₂ (fun l site => ∀ place, (tree.Supported → ∃ text, Printable.body place (printed site) = .ok text) ∧
        Gives (Printable.body place (printed site)) fun text => ∃ texts,
          PrintedTexts place.deeper (bodyStatements site) texts ∧ text = braced place texts ∧
          texts.takeWhile isDirectiveText = ((prologue (bodyStatements l.fields)).takeWhile isDirective).map stringText)
      (functions tree) (functionSites out) := by
  have hsound (hsupported : tree.Supported) : out.Sound := by
    obtain ⟨out', hrun', hsound, -⟩ := instrument_sound (Json.sound_iff.2 ⟨h.2, hsupported⟩) h.1 code
    cases hrun.symm.trans hrun'
    exact hsound
  have hrewrites := instrument_rewrites h hrun
  have houtType : out.type? = some "Program" := hrewrites.type?_eq.trans h.1
  refine ⟨fun hsupported => ?_, ?_, ?_⟩
  · obtain ⟨_, hprint, text, rfl⟩ := ((hsound hsupported).printProgram houtType).exists_ok
    exact ⟨text, hprint⟩
  · cases tree with
    | obj fields =>
      obtain ⟨name, made, out, rfl, hnode⟩ := hrewrites.exists_node h.1
      cases hprint : printNode (.obj out) with
      | ok j => exact hnode.program_texts hspelled hprint
      | error fault => trivial
    | _ => cases h.1
  · obtain ⟨hlength, hzip⟩ := List.forall₂_iff_zip.1 (functions_rewritten h hrun)
    refine List.forall₂_iff_zip.2 ⟨hlength, fun {l site} hmem place => ?_⟩
    obtain ⟨hl, hrewritten⟩ := hzip hmem
    obtain ⟨hl, hfunction⟩ := List.mem_filter.1 hl
    obtain ⟨type, name, made, hfunctionType, hnode⟩ := hrewritten.exists_functionNode hfunction
    refine ⟨fun hsupported => ?_, ?_⟩
    · obtain ⟨l', hl', rfl⟩ := List.mem_map.1 (List.mem_filter.1 (List.of_mem_zip hmem).2).1
      have hsite : (Json.obj l'.fields).Sound := everyObject_function out (hsound hsupported) hl'
        (List.mem_filter.1 (List.of_mem_zip hmem).2).2
      exact hnode.exists_bodyText hfunctionType hsite place
    · cases hprint : Printable.body place (printed site) with
      | ok text => exact hnode.body_texts hfunctionType (everyObject_function tree hspelled hl hfunction) hprint
      | error fault => trivial

/-- A program with directives and a function with directives. -/
def directivesProgram (outer inner : List String) : Json :=
  let directive (text : String) : Json := .obj [("type", .str "ExpressionStatement"),
    ("expression", .obj [("type", .str "Literal"), ("value", .str text), ("raw", .str ("\"" ++ text ++ "\""))]),
    ("directive", .str text)]
  let function : Json := .obj [("type", .str "FunctionDeclaration"), ("id", .ident (.str "f")), ("params", .arr []),
    ("body", blockOf (inner.map directive)), ("generator", .bool false), ("expression", .bool false), ("async", .bool false)]
  .obj [("type", .str "Program"), ("body", .arr (outer.map directive ++ [function])), ("sourceType", .str "script")]

theorem instrument_prologues_strict : (directivesProgram ["use strict"] ["use strict"]).WellFormed ∧
    (directivesProgram ["use strict"] ["use strict"]).Spelled ∧
    ∃ out text texts, instrument (directivesProgram ["use strict"] ["use strict"]) none = .ok out ∧
      printNode out = .ok (.str text) ∧ PrintedTexts .top (out.field "body").items texts ∧ text = "\n".intercalate texts ∧
      texts.takeWhile isDirectiveText = ["\"use strict\";"] := by
  have hwell : (directivesProgram ["use strict"] ["use strict"]).WellFormed := by decide +kernel
  have hspelled : (directivesProgram ["use strict"] ["use strict"]).Spelled := by decide +kernel
  have hok : (instrument (directivesProgram ["use strict"] ["use strict"]) none).isOk = true := by decide +kernel
  refine ⟨hwell, hspelled, ?_⟩
  cases hrun : instrument (directivesProgram ["use strict"] ["use strict"]) none with
  | ok out =>
    obtain ⟨hsupported, htexts, -⟩ := instrument_prologues hwell hspelled hrun
    obtain ⟨text, htext⟩ := hsupported (by decide +kernel)
    rw [htext] at htexts
    obtain ⟨texts, hprinted, heq, hfront⟩ := htexts
    exact ⟨out, text, texts, rfl, htext, hprinted, Json.str.inj heq, hfront⟩
  | error refusal => rw [hrun] at hok; cases hok

/-- A string in parentheses, `("use strict");`: the parentheses leave no trace in the tree. -/
def stringProgram : Json :=
  .obj [("type", .str "Program"), ("body", .arr [.obj [("type", .str "ExpressionStatement"), ("expression",
    .obj [("type", .str "Literal"), ("value", .str "use strict"), ("raw", .str "\"use strict\"")])]]), ("sourceType", .str "script")]

/-- An empty directive is not taken for one, and those behind it end up in the guard with it; a string without the text of a
directive becomes one. -/
theorem prologues_changed :
    ((directivesProgram [] ["", "use strict"]).WellFormed ∧ (directivesProgram [] ["", "use strict"]).Spelled ∧
      (functions (directivesProgram [] ["", "use strict"])).map (fun l => (prologue (bodyStatements l.fields)).map stringText) =
        [["\"\";", "\"use strict\";"]] ∧
      ∃ out, instrument (directivesProgram [] ["", "use strict"]) none = .ok out ∧
        (functionSites out).map (fun site =>
          (((bodyStatements site).map printable).mapM (Printable.statement Place.top.deeper)).toOption.map
            (·.takeWhile isDirectiveText)) = [some []]) ∧
    stringProgram.WellFormed ∧ stringProgram.Spelled ∧ prologue (stringProgram.field "body").items = [] ∧
      ∃ out, instrument stringProgram none = .ok out ∧ (printNode out).toOption.bind Json.string? = some "\"use strict\";" ∧
        isDirectiveText "\"use strict\";" = true := by
  have hguarded : (instrument (directivesProgram [] ["", "use strict"]) none).toOption.any (fun out => decide ((functionSites out).map
      (fun site => (((bodyStatements site).map printable).mapM (Printable.statement Place.top.deeper)).toOption.map
        (·.takeWhile isDirectiveText)) = [some []])) = true := by decide +kernel
  have hprinted : (instrument stringProgram none).toOption.any (fun out =>
      decide ((printNode out).toOption.bind Json.string? = some "\"use strict\";")) = true := by decide +kernel
  obtain ⟨out, hout, hsites⟩ := (Option.any_eq_true _ _).1 hguarded
  obtain ⟨out', hout', htext⟩ := (Option.any_eq_true _ _).1 hprinted
  refine ⟨⟨by decide +kernel, by decide +kernel, by decide +kernel, out, ok_of_toOption hout, of_decide_eq_true hsites⟩,
    by decide +kernel, by decide +kernel, List.eq_nil_of_length_eq_zero (by decide +kernel), out', ok_of_toOption hout',
    of_decide_eq_true htext, by decide +kernel⟩

end ScriptTrace
