import ScriptTrace.Proofs.ComposedPrinting
import ScriptTrace.Proofs.OuterText

/-!
# Heads of loops

What stands in the head of a loop before its separator: the initialiser of a counted loop, or the left side of a loop over
items or names. An operator `in` outside of brackets would be read there as the separator.

* `headPart`, `headSeparator` : the printed part of a head, and what ends it;
* `isPlainLeft` : a left side that declares nothing with an initial value;
* `printed_heads` : the part of every printed head, and where it has no `in` outside of its brackets.
-/

namespace ScriptTrace

open Printable

/-- Types of loops with a head. -/
def headedTypes : List String := ["ForStatement", "ForInStatement", "ForOfStatement"]

/-- The part of a loop's head that comes first, as it is printed. -/
def headPart (place : Place) (loop : Json) : Except Fault String := do
  let l := layer (loop.annotate forms)
  if loop.type? = some "ForStatement" then asText (← loopInit place.head l) else loopTarget place (← l.require "left")

/-- What ends the first part of a loop's head. -/
def headSeparator (loop : Json) : String :=
  match loop.type? with
  | some "ForInStatement" => " in "
  | some "ForOfStatement" => " of "
  | _ => "; "

/-- A declarator of a name or a pattern, without an initial value. -/
def isPlainDeclarator (d : Json) : Bool := (d.field "init").isNull && (d.field "id").isOneOf targetTypes

/-- A left side that is no declaration, or one without initial values. -/
def isPlainLeft (left : Json) : Bool :=
  left.type? != some "VariableDeclaration" || (left.field "declarations").items.all isPlainDeclarator

/-- Heads in which the first part has no bare `in`: those of counted loops, those inside the head of a counted loop, and
those whose left side declares nothing with an initial value. -/
def keepsHead (place : Place) (loop : Json) : Bool :=
  loop.type? == some "ForStatement" || place.inHead || isPlainLeft (loop.field "left")

section Heads

variable {copied : CopyKind → String → Prop} {place : Place} {p : Printable} {l : Layer Printable}

/-! ## Left sides -/

/-- What binds more tightly than operators has nothing bare wherever it stands. -/
theorem gives_target (h : p.Every (Composes copied)) (htarget : p.source.isOneOf targetTypes = true) (required : Precedence) :
    Gives (p.expression place required) (ComposedPart copied false) := by
  have htight := h.here.tight place htarget
  have hfragment := h.here.fragment place
  unfold Printable.expression Printable.fragment
  cases hrun : p.note.fragment place with
  | error fault => trivial
  | ok f =>
    rw [hrun] at htight hfragment
    refine ends_ite (fun _ => ?_) fun _ => hfragment false (hides_tight htight)
    exact (gives_asText (hfragment true hides_bare)).bind fun s hs => ends_pure.2 (.text hs.parens)

/-- A field that is null or missing. -/
theorem gives_absent (h : p.Every (Composes copied)) {fields : Fields Printable} (hl : layer p = .obj fields) {key : String}
    (hnull : (p.source.field key).isNull = true) : Gives ((layer p).optional key) fun o => o = none := by
  rw [field_source h hl] at hnull
  rw [hl]
  change (Fields.get? key fields).filter _ = none
  cases hget : Fields.get? key fields with
  | none => rfl
  | some value =>
    have hplain : value.source = Annotated.plain (layer value) := (h.content.fields fields hl _ (Fields.mem_of_get? hget)).here.plain
    rw [hget, Option.map_some, Option.getD_some, hplain] at hnull
    rw [Option.filter_some, if_neg]
    cases hlayer : layer value with
    | null => simp [Layer.isNull]
    | _ => rw [hlayer] at hnull; cases hnull

/-- A declarator without an initial value has nothing bare. -/
theorem gives_plainDeclarator (h : p.Every (Composes copied)) (hplain : isPlainDeclarator p.source = true) :
    Gives (declarator place p) (ComposedPart copied false) := by
  obtain ⟨hinit, hid⟩ := Bool.and_eq_true_iff.1 hplain
  unfold declarator
  refine (ends_require .all "id").bind fun id ⟨fields, hl, hget⟩ => ?_
  rw [field_source h hl, hget] at hid
  refine (gives_target (h.content.fields fields hl _ (Fields.mem_of_get? hget)) hid _).bind fun target htarget => ?_
  refine (gives_absent h hl hinit).bind fun o ho => ?_
  subst ho
  exact htarget

/-- The type of a value is that of its layer. -/
theorem gives_type (h : p.Every (Composes copied)) (type : String) :
    Gives ((layer p).hasType type) fun b => b = (p.source.type? == some type) := by
  refine (ends_require .all "type").bind fun x ⟨fields, hl, hget⟩ => ends_pure.2 ?_
  have hsource : p.source = Annotated.plain (layer p) := h.here.plain
  have hplain : x.source = Annotated.plain (layer x) := (h.content.fields fields hl _ (Fields.mem_of_get? hget)).here.plain
  have htype : p.source.type? = x.source.string? := by
    rw [hsource, hl]
    change (Fields.get? "type" (Fields.mapValues Annotated.source fields)).bind Json.string? = _
    rw [Fields.get?_mapValues, hget]
    rfl
  rw [htype, hplain]
  cases layer x with
  | str s => simp [Layer.isString, Annotated.plain, Json.string?]
  | _ => rfl

/-- The left side of a loop has nothing bare in the head of a counted loop, or where it has no initial values. -/
theorem gives_keptTarget (h : p.Every (Composes copied)) (hkept : place.inHead = true ∨ isPlainLeft p.source = true) :
    Gives (loopTarget place p) (Composed copied false) := by
  unfold loopTarget
  refine (gives_type h "VariableDeclaration").bind fun b hb => ends_ite (fun htrue => ?_) fun _ => gives_tightText h (by decide)
  rw [hb] at htrue
  refine gives_declaration h.layerFit fun list ps p' ⟨fields, hl, hget⟩ harr hmem hp' => ?_
  rcases hkept with hhead | hplain
  · exact gives_declarator hp' fun _ => .inl hhead
  · refine gives_plainDeclarator hp' ?_
    have hlist : list.source = Annotated.plain (layer list) := (h.content.fields fields hl _ (Fields.mem_of_get? hget)).here.plain
    rw [isPlainLeft, field_source h hl, hget, Option.map_some, Option.getD_some, hlist, harr, eq_of_beq htrue] at hplain
    have hall : (ps.map Annotated.source).all isPlainDeclarator = true := by simpa [Annotated.plain, Json.items] using hplain
    exact List.all_eq_true.1 hall _ (List.mem_map_of_mem hmem)

/-! ## Heads -/

/-- The text of a loop begins with its head: the first part, and the separator. -/
structure Headed (place : Place) (loop : Json) (text part : String) : Prop where
  printed : headPart place loop = .ok part
  begins : ∃ rest, text = "for (" ++ part ++ headSeparator loop ++ rest
  composed : Composed loop.Copied true part
  kept : keepsHead place loop = true → Composed loop.Copied false part

theorem gives_countedHead (h : LayerFit copied l) : Gives (countedLoop place l) fun text => ∃ part rest,
    (do asText (← loopInit place.head l)) = .ok part ∧ text = "for (" ++ part ++ "; " ++ rest ∧ Composed copied false part := by
  unfold countedLoop
  refine (gives_loopInit h).known.bind fun init ⟨hinit, hcomposed⟩ => ?_
  refine (gives_optionalExpression h "test").bind fun test htest => (gives_optionalExpression h "update").bind fun update hupdate => ?_
  refine (gives_asText hcomposed).known.bind fun s ⟨hs, hclosed⟩ => (gives_asText htest).bind fun t _ =>
    (gives_asText hupdate).bind fun u _ => ?_
  refine (h.require "body").bind fun _ hbody => (gives_nested hbody).bind fun b _ => ends_pure.2 ?_
  refine ⟨s, t ++ "; " ++ u ++ ")" ++ b, ?_, by simp only [String.append_assoc], hclosed⟩
  rw [hinit]
  exact hs

theorem gives_eachHead (h : LayerFit copied l) {word : String} {required : Precedence} :
    Gives (eachLoop word required place l) fun text => ∃ part rest, (do loopTarget place (← l.require "left")) = .ok part ∧
      text = "for (" ++ part ++ word ++ rest ∧ Composed copied true part ∧ ∃ fields left, l = .obj fields ∧
        Fields.get? "left" fields = some left ∧
          (place.inHead = true ∨ isPlainLeft left.source = true → Composed copied false part) := by
  unfold eachLoop
  refine (ends_require .all "left").known.bind fun left ⟨hrun, fields, hl, hget⟩ => ?_
  have hleft := h.every.fields fields hl _ (Fields.mem_of_get? hget)
  refine (gives_loopTarget hleft).known.bind fun target ⟨htarget, hcomposed⟩ => ?_
  refine (h.require "right").bind fun _ hright => (gives_expressionText hright hides_bare).bind fun source _ => ?_
  refine (h.require "body").bind fun _ hbody => (gives_nested hbody).bind fun b _ => ends_pure.2 ?_
  refine ⟨target, source ++ ")" ++ b, ?_, by simp only [String.append_assoc], hcomposed, fields, left, hl, hget, fun hkept => ?_⟩
  · rw [hrun]
    exact htarget
  · have hclosed := gives_keptTarget hleft hkept
    rwa [htarget] at hclosed

variable {loop : Json} {fields : Fields Printable}

theorem gives_headed_counted (h : LayerFit loop.Copied l) (hl : layer (loop.annotate forms) = l)
    (htype : loop.type? = some "ForStatement") :
    Gives (countedLoop place l) fun text => ∃ part, Headed place loop text part := by
  refine (gives_countedHead h).mono fun text ⟨part, rest, hpart, htext, hclosed⟩ =>
    ⟨part, ?_, ⟨rest, ?_⟩, hclosed.bared, fun _ => hclosed⟩
  · rw [headPart, hl]
    simpa only [if_pos htype] using hpart
  · rw [headSeparator, htype]
    exact htext

theorem gives_headed_each (h : LayerFit loop.Copied l) (hl : layer (loop.annotate forms) = l)
    (hcounted : loop.type? ≠ some "ForStatement") {word : String} {required : Precedence} (hword : headSeparator loop = word) :
    Gives (eachLoop word required place l) fun text => ∃ part, Headed place loop text part := by
  refine (gives_eachHead h).mono fun text ⟨part, rest, hpart, htext, hcomposed, fields, left, hfields, hget, hclosed⟩ =>
    ⟨part, ?_, ⟨rest, hword ▸ htext⟩, hcomposed, fun hkept => hclosed ?_⟩
  · rw [headPart, hl]
    simpa only [if_neg hcounted] using hpart
  · have hleft : loop.field "left" = left.source := by
      rw [← plain_annotate forms loop, show (loop.annotate forms).content = .obj fields from hl.trans hfields]
      exact Json.field_of_get? ((Fields.get?_mapValues ..).trans (by rw [hget, Option.map_some]))
    rwa [keepsHead, hleft, beq_false_of_ne hcounted, Bool.false_or, Bool.or_eq_true] at hkept

end Heads

/-- A part that is kept readable does not have the word `in` outside of its brackets, if none of the copied texts has it. -/
theorem Headed.quiet {place : Place} {loop : Json} {text part : String} (h : Headed place loop text part)
    (hkept : keepsHead place loop = true) (hplain : PlainCopies loop.Copied) : bareIn part = false :=
  ((h.kept hkept).legible hplain).quiet rfl

/-- Every loop that is printed begins with its head: the first part, composed of words, copies, operators and text in
brackets, and the separator. No operator `in` stands outside the brackets of a part that is kept readable: if none of the copied texts
has the word `in`, it does not stand there at all. -/
theorem printed_heads {loop : Json} {place : Place} {text : String} (hloop : loop.isOneOf headedTypes = true)
    (h : Printable.statement place (loop.annotate forms) = .ok text) : ∃ part, Headed place loop text part ∧
      (keepsHead place loop = true → PlainCopies loop.Copied → bareIn part = false) := by
  suffices hheaded : ∃ part, Headed place loop text part by
    obtain ⟨part, hpart⟩ := hheaded
    exact ⟨part, hpart, hpart.quiet⟩
  have hevery : (loop.annotate forms).Every (Composes loop.Copied) := every_composes fun _ _ hs => hs
  have hfit := hevery.layerFit
  have hnote : (loop.annotate forms).note = forms (layer (loop.annotate forms)) := by cases loop <;> rfl
  cases hl : layer (loop.annotate forms) with
  | obj fields =>
    rw [hl] at hfit hnote
    have htype : loop.type? = Fields.type? (Fields.mapValues Annotated.source fields) := by
      rw [← plain_annotate forms loop, show (loop.annotate forms).content = .obj fields from hl]
      rfl
    have hgives : Gives (Printable.statement place (loop.annotate forms)) fun text => ∃ part, Headed place loop text part := by
      rw [Printable.statement, hnote]
      refine gives_typeText.bind fun type hfields => ?_
      rw [hfields] at htype
      rw [Json.isOneOf, htype, Option.any_some, List.contains_iff_mem] at hloop
      simp only [headedTypes, List.mem_cons, List.not_mem_nil, or_false] at hloop
      rcases hloop with rfl | rfl | rfl
      · exact gives_headed_counted hfit hl htype
      · exact gives_headed_each hfit hl (by rw [htype]; decide) (by rw [headSeparator, htype]; rfl)
      · exact gives_headed_each hfit hl (by rw [htype]; decide) (by rw [headSeparator, htype]; rfl)
    rw [h] at hgives
    exact hgives
  | _ =>
    rw [hl] at hnote
    rw [Printable.statement, hnote] at h
    cases h

/-- A loop over names whose variable has an initial value: `for (var x = a in b in c);`. -/
def initialLoop : Json :=
  let declarator : Json := .obj [("type", .str "VariableDeclarator"), ("id", .ident (.str "x")),
    ("init", .obj [("type", .str "BinaryExpression"), ("operator", .str "in"), ("left", .ident (.str "a")),
      ("right", .ident (.str "b"))])]
  .obj [("type", .str "ForInStatement"),
    ("left", .obj [("type", .str "VariableDeclaration"), ("declarations", .arr [declarator]), ("kind", .str "var")]),
    ("right", .ident (.str "c")), ("body", .obj [("type", .str "EmptyStatement")])]

theorem initialLoop_plain : PlainCopies initialLoop.Copied := by
  have hall : ∀ kind ∈ [CopyKind.name, .literal, .sign, .keyword, .raw], (initialLoop.copies kind).all (isPlainCopy kind) = true := by
    decide +kernel
  exact fun kind s hs => List.all_eq_true.1 (hall kind (by cases kind <;> simp)) s hs

/-- Inside the head of a counted loop the initial value is put in parentheses. -/
theorem printed_heads_initial : initialLoop.isOneOf headedTypes = true ∧
    Printable.statement Place.top.head (initialLoop.annotate forms) = .ok "for (var x = (a in b) in c)\n  ;" ∧
      ∃ part, Headed Place.top.head initialLoop "for (var x = (a in b) in c)\n  ;" part ∧ bareIn part = false := by
  have htext : Printable.statement Place.top.head (initialLoop.annotate forms) = .ok "for (var x = (a in b) in c)\n  ;" := by
    exact ok_of_toOption (by decide +kernel)
  obtain ⟨part, hpart, hquiet⟩ := printed_heads (by decide) htext
  exact ⟨by decide, htext, part, hpart, hquiet (by decide) initialLoop_plain⟩

/-- Outside of heads the operator of the initial value stands bare, before the separator. -/
theorem initialLoop_bare :
    Printable.statement .top (initialLoop.annotate forms) = .ok "for (var x = a in b in c)\n  ;" ∧
      headPart .top initialLoop = .ok "var x = a in b" ∧ bareIn "var x = a in b" = true ∧
        ¬ Composed initialLoop.Copied false "var x = a in b" := by
  have hbare : bareIn "var x = a in b" = true := by decide +kernel
  refine ⟨ok_of_toOption (by decide +kernel), ok_of_toOption (by decide +kernel), hbare, fun h => ?_⟩
  have hquiet := (h.legible initialLoop_plain).quiet rfl
  rw [hbare] at hquiet
  cases hquiet

end ScriptTrace
