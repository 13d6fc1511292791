import ScriptTrace.Proofs.ComposedText
import ScriptTrace.Proofs.PrintingFaults

/-!
# Printing composed text

Every printed text is composed of words, copies, operators and text in brackets. The text of an expression is bare only
outside the head of a counted loop, and only where it binds no more tightly than the operator `in`.

* `gives_expression` : the text of an expression where a precedence is required;
* `gives_declaration`, `gives_loopInit` : declarations, and the first part of a counted loop's head;
* `gives_statementOf`, `gives_fragmentOf` : the texts of statements and of expressions;
* `every_composes` : the printed forms of any value are composed.
-/

namespace ScriptTrace

namespace Printable

variable {copied : CopyKind → String → Prop} {bare : Bool} {place : Place} {p : Printable} {l : Layer Printable}

/-! ## Parts of expressions -/

theorem gives_asText {j : Json} (h : ComposedPart copied bare j) : Gives (asText j) (Composed copied bare) := by
  cases j with
  | str s => exact h s rfl
  | _ => trivial

theorem gives_joined {parts : List Json} (h : ∀ j ∈ parts, ComposedPart copied bare j) :
    Gives (joined parts) (Composed copied bare) :=
  (ends_mapM fun j hj => gives_asText (h j hj)).bind fun _ hs => ends_pure.2 (.listed hs)

theorem gives_statement (h : p.Every (Composes copied)) : Gives (p.statement place) (Composed copied true) :=
  h.here.statement place

/-- The expression at a place that requires a precedence: what it hides is told by the precedence. -/
theorem gives_operand (h : p.Every (Composes copied)) (required : Precedence) :
    Gives (p.expression place required) fun j => ∀ bare, Hides place required bare → ComposedPart copied bare j := by
  refine (h.here.fragment place).bind fun f hf => ends_ite (fun _ => ?_) fun hle => ?_
  · exact (gives_asText (hf true hides_bare)).bind fun s hs => ends_pure.2 fun _ _ => .text hs.parens
  · exact fun bare hhides => hf bare (hhides.mono (Nat.le_of_not_lt hle))

theorem gives_expression (h : p.Every (Composes copied)) {required : Precedence} (hhides : Hides place required bare) :
    Gives (p.expression place required) (ComposedPart copied bare) :=
  (gives_operand h required).mono fun _ hj => hj bare hhides

theorem gives_expressionText (h : p.Every (Composes copied)) {required : Precedence} (hhides : Hides place required bare) :
    Gives (p.expressionText place required) (Composed copied bare) :=
  (gives_expression h hhides).bind fun _ => gives_asText

/-- An expression that must bind more tightly than `in` is not bare. -/
theorem gives_tight (h : p.Every (Composes copied)) {required : Precedence} (hlt : Precedence.membership < required) :
    Gives (p.expression place required) (ComposedPart copied false) := gives_expression h (hides_tight hlt)

theorem gives_tightText (h : p.Every (Composes copied)) {required : Precedence} (hlt : Precedence.membership < required) :
    Gives (p.expressionText place required) (Composed copied false) := gives_expressionText h (hides_tight hlt)

/-- The expressions of a list, with commas between them. -/
theorem gives_expressions {ps : List Printable} (h : ∀ p ∈ ps, p.Every (Composes copied)) (hhides : Hides place .assign bare) :
    Gives (ps.mapM (·.expression place .assign)) fun parts => ∀ j ∈ parts, ComposedPart copied bare j :=
  ends_mapM fun p hp => gives_expression (h p hp) hhides

/-! ## Blocks, declarations, functions and classes -/

theorem gives_inBraces {ps : List Printable} (h : ∀ p ∈ ps, p.Every (Composes copied)) :
    Gives (inBraces place ps) (Enclosed copied) := by
  unfold inBraces
  refine (ends_mapM (P := Composed copied true) fun p hp => ?_).bind fun lines hlines => ends_pure.2 ?_
  · exact (gives_statement (h p hp)).bind fun s hs => ends_pure.2 ((Composed.pad _).append hs)
  · have hinner := ((((Composed.lines hlines).before "\n" (by decide)).append (.pad place)).after "\n" (by decide))
    have hgroup : Enclosed copied ("\x7b" ++ _ ++ "\x7d") := .group (by decide) hinner
    simp only [← String.append_assoc] at hgroup
    exact hgroup

theorem enclosed_empty : Enclosed copied "\x7b\x7d" := by
  have hgroup : Enclosed copied ("\x7b" ++ "" ++ "\x7d") := .group (by decide) (.word (by decide))
  exact hgroup

theorem gives_block (h : LayerFit copied l) : Gives (block place l) (Enclosed copied) := by
  unfold block
  refine (h.optional "body").bind fun o ho => ?_
  cases o with
  | none => exact ends_pure.2 enclosed_empty
  | some body =>
    refine ends_ite (fun _ => ?_) fun _ => ends_pure.2 enclosed_empty
    exact (ho body rfl).layerFit.elements.bind fun _ hps => gives_inBraces hps

theorem gives_nested (h : p.Every (Composes copied)) : Gives (nested place p) (Composed copied true) := by
  unfold nested
  refine (LayerFit.hasType _).bind fun _ _ => ends_ite (fun _ => ?_) fun _ => ?_
  · exact (gives_block h.layerFit).bind fun _ hs => ends_pure.2 (hs.1.bared.after " " (by decide))
  · exact (gives_statement h).bind fun _ hs => ends_pure.2 (((Composed.pad _).after "\n" (by decide)).append hs)

theorem gives_declarator (h : p.Every (Composes copied)) (hhides : Hides place .assign bare) :
    Gives (declarator place p) (ComposedPart copied bare) := by
  unfold declarator
  refine (h.layerFit.require "id").bind fun id hid => (gives_expression hid hhides).bind fun target htarget => ?_
  refine (h.layerFit.optional "init").bind fun o ho => ?_
  cases o with
  | none => exact htarget
  | some value =>
    refine (gives_expressionText (ho value rfl) hhides).bind fun s hs => (gives_asText htarget).bind fun t ht => ends_pure.2 (.text ?_)
    exact .joint (by decide) ht hs

/-- A declaration is bare only where one of its declarators is. -/
theorem gives_declaration (h : LayerFit copied l) (hparts : ∀ list ps p, (∃ fields, l = .obj fields ∧
      Fields.get? "declarations" fields = some list) → layer list = .arr ps → p ∈ ps → p.Every (Composes copied) →
        Gives (declarator place p) (ComposedPart copied bare)) : Gives (declaration place l) (Composed copied bare) := by
  unfold declaration
  refine (ends_require .all "declarations").bind fun list hlist => (ends_elements .all).bind fun ps hps => ?_
  have hdeclarators : Gives (ps.mapM (declarator place)) fun parts => ∀ j ∈ parts, ComposedPart copied bare j := by
    refine ends_mapM fun p hp => ?_
    rcases hps p hp with harr | ⟨s, rfl⟩
    · obtain ⟨fields, hl, hget⟩ := id hlist
      have hevery := h.every.fields fields hl _ (Fields.mem_of_get? hget)
      exact hparts list ps p hlist harr hp (hevery.content.items ps harr p hp)
    · trivial
  refine hdeclarators.bind fun parts hparts => h.keyword.bind fun kind hkind => ?_
  exact (gives_joined hparts).bind fun s hs => ends_pure.2 (.declared hkind hs)

theorem gives_params (h : LayerFit copied l) : Gives (params place l) (Enclosed copied) := by
  unfold params
  refine (h.elementsOf "params").bind fun ps hps => (gives_expressions hps hides_bare).bind fun parts hparts => ?_
  exact (gives_joined hparts).bind fun s hs => ends_pure.2 (.group (by decide) hs)

theorem gives_body (h : LayerFit copied l) : Gives (body place l) (Enclosed copied) :=
  (h.require "body").bind fun _ hp => gives_block hp.layerFit

/-- A word of the language with a name behind it, if there is one. -/
theorem composed_named {word name : String} (hatom : word ∈ atoms) (hlead : word ++ " " ∈ leads)
    (hname : name = "" ∨ ∃ n, copied .name n ∧ name = " " ++ n) : Composed copied bare (word ++ name) := by
  rcases hname with rfl | ⟨n, hn, rfl⟩
  · rw [String.append_empty]
    exact .atom hatom
  · rw [← String.append_assoc]
    exact .lead hlead (.name hn)

theorem gives_function (h : LayerFit copied l) : Gives (function place l) (Composed copied false) := by
  unfold function
  refine (LayerFit.flag _).bind fun async _ => (LayerFit.flag _).bind fun generator _ => ?_
  extract_lets star rest
  have hrest (name : String) (hname : name = "" ∨ ∃ n, copied .name n ∧ name = " " ++ n) :
      Gives (rest name) (Composed copied false) := by
    refine (gives_params h).bind fun params hparams => (gives_body h).bind fun body hbody => ends_pure.2 ?_
    have hword : Composed copied false ("function" ++ star ++ name) := by
      unfold star
      split <;> exact composed_named (by decide) (by decide) hname
    have htext := (hword.enclosed hparams).spaced hbody
    cases async with
    | false => simpa using htext
    | true =>
      have hlead : Composed copied false ("async " ++ ("function" ++ star ++ name ++ params ++ " " ++ body)) :=
        .lead (by decide) htext
      simp only [← String.append_assoc] at hlead
      exact hlead
  refine (h.optional "id").bind fun o ho => ?_
  cases o with
  | none => exact hrest "" (.inl rfl)
  | some id => exact (ho id rfl).layerFit.name.bind fun name hname => hrest _ (.inr ⟨name, hname, rfl⟩)

/-! ### Members -/

theorem gives_propertyKey (h : LayerFit copied l) : Gives (propertyKey place l) (ComposedPart copied true) := by
  unfold propertyKey
  refine (LayerFit.flag _).bind fun _ _ => ends_ite (fun _ => ?_) fun _ => ?_
  · refine (h.require "key").bind fun _ hp => (gives_expressionText hp hides_bare).bind fun s hs => ends_pure.2 (.text ?_)
    exact .group (by decide) hs
  · exact (h.require "key").bind fun _ hp => gives_expression hp hides_bare

theorem gives_accessor? : Gives (accessor? l) fun o => ∀ kind, o = some kind → kind ∈ ["get", "set"] := by
  unfold accessor?
  refine (ends_optional .all "kind").bind fun o _ => ?_
  split
  · rintro kind ⟨⟩; decide
  · rintro kind ⟨⟩; decide
  · exact nofun

theorem gives_method (h : LayerFit copied l) {key : Json} (hkey : ComposedPart copied true key) :
    Gives (method place l key) (Composed copied true) := by
  unfold method
  refine (h.require "value").bind fun p hp => ?_
  extract_lets value rest
  have hrest (before : String) (hbefore : Composed copied true before) : Gives (rest before) (Composed copied true) := by
    refine (gives_asText hkey).bind fun key hkey => (gives_params hp.layerFit).bind fun params hparams => ?_
    refine (gives_body hp.layerFit).bind fun body hbody => ends_pure.2 ?_
    exact ((hbefore.append hkey).enclosed hparams).spaced hbody
  refine gives_accessor?.bind fun o ho => ?_
  cases o with
  | some kind =>
    have hkind : kind ∈ words := by
      have hmem := ho kind rfl
      simp only [List.mem_cons, List.not_mem_nil, or_false] at hmem
      rcases hmem with rfl | rfl <;> decide
    exact hrest _ ((Composed.word hkind).before " " (by decide))
  | none =>
    refine (LayerFit.flag _).bind fun async _ => (LayerFit.flag _).bind fun generator _ => ?_
    exact hrest _ ((Composed.flag (by decide)).append (.flag (by decide)))

theorem gives_member (h : p.Every (Composes copied)) : Gives (member place p) (Composed copied true) := by
  unfold member
  refine (LayerFit.flag _).bind fun static _ => (gives_propertyKey h.layerFit).bind fun key hkey => ?_
  refine (gives_method h.layerFit hkey).bind fun s hs => ends_pure.2 ?_
  exact ((Composed.pad _).append (.flag (by decide))).append hs

theorem gives_classText (h : LayerFit copied l) : Gives (classText place l) (Composed copied false) := by
  unfold classText
  extract_lets rest
  have hrest (name : String) (hname : Composed copied false ("class" ++ name)) : Gives (rest name) (Composed copied false) := by
    unfold rest
    extract_lets members
    have hmembers (base : String) (hbase : Composed copied false ("class" ++ name ++ base)) :
        Gives (members base) (Composed copied false) := by
      refine (h.require "body").bind fun b hb => (hb.layerFit.elementsOf "body").bind fun ps hps => ?_
      refine ends_ite (fun _ => ends_pure.2 ?_) fun _ => ?_
      · have htext := hbase.spaced enclosed_empty
        rwa [String.append_assoc] at htext
      · refine (ends_mapM fun p hp => gives_member (hps p hp)).bind fun lines hlines => ends_pure.2 ?_
        have hinner := (((Composed.lines hlines).before "\n" (by decide)).append (.pad place)).after "\n" (by decide)
        have hgroup : Enclosed copied ("\x7b" ++ _ ++ "\x7d") := .group (by decide) hinner
        have htext := hbase.spaced hgroup
        rw [show " \x7b\n" = " " ++ "\x7b" ++ "\n" from rfl]
        simp only [← String.append_assoc] at htext ⊢
        exact htext
    refine (h.optional "superClass").bind fun o ho => ?_
    cases o with
    | none => exact hmembers "" (by rwa [String.append_empty])
    | some base =>
      refine (gives_tightText (ho base rfl) (by decide)).bind fun s hs => hmembers _ ?_
      rw [← String.append_assoc]
      exact .joint (by decide) hname hs
  refine (h.optional "id").bind fun o ho => ?_
  cases o with
  | none => exact hrest "" (composed_named (by decide) (by decide) (.inl rfl))
  | some id =>
    exact (ho id rfl).layerFit.name.bind fun name hname =>
      hrest _ (composed_named (by decide) (by decide) (.inr ⟨name, hname, rfl⟩))

/-! ## Expressions -/

theorem gives_literal (h : LayerFit copied l) (htype : IsLiteral l) : Gives (literal l) (ComposedPart copied bare) := by
  unfold literal
  refine (ends_optional .all "raw").bind fun o ho => ?_
  cases o with
  | none =>
    refine (ends_optional .all "value").bind fun v hv => ends_pure.2 (.text ?_)
    cases v with
    | none => exact .atom (by decide)
    | some value => exact .literal (h.value htype (hv value rfl))
  | some raw => exact fun s hs => .literal (h.raw htype (ho raw rfl) hs)

theorem gives_templateItem (i : Nat) (h : l.Every (Composes copied)) :
    Gives (templateItem i l) fun o => ∀ p, o = some p → p.Every (Composes copied) := by
  unfold templateItem
  split
  · exact ends_ite (fun _ => trivial) fun _ => nofun
  · exact (h.elements .all composes_string).bind fun ps hps p hp => hps p (List.mem_of_getElem? hp)

/-- The inside of a template is made of copied stretches and composed expressions. -/
def ComposedInside (copied : CopyKind → String → Prop) (text : String) : Prop :=
  ∃ parts, text = templateInside parts ∧ (∀ part ∈ parts, copied .raw part.1) ∧ ∀ part ∈ parts, ∀ s ∈ part.2, Composed copied true s

theorem gives_templateParts {expressions : Layer Printable} (h : expressions.Every (Composes copied)) :
    ∀ (quasis : List Printable) (i : Nat), (∀ p ∈ quasis, p.Every (Composes copied)) →
      Gives (templateParts place expressions i quasis) (ComposedInside copied)
  | [], _, _ => ⟨[], rfl, by simp, by simp⟩
  | quasi :: quasis, i, hq => by
    obtain ⟨hquasi, hquasis⟩ := List.forall_mem_cons.1 hq
    unfold templateParts
    refine (hquasi.layerFit.require "value").bind fun value hvalue => ?_
    refine hvalue.layerFit.stretch.bind fun raw hraw => ?_
    extract_lets rest
    have hrest (inner : String) (hole : Option String) (hinner : inner = hole.elim "" fun s => "$\x7b" ++ s ++ "\x7d")
        (hhole : ∀ s ∈ hole, Composed copied true s) : Gives (rest inner) (ComposedInside copied) := by
      refine (gives_templateParts h quasis (i + 1) hquasis).bind fun text htext => ends_pure.2 ?_
      obtain ⟨parts, htext, hraws, hholes⟩ := htext
      refine ⟨(raw, hole) :: parts, ?_, List.forall_mem_cons.2 ⟨hraw, hraws⟩, List.forall_mem_cons.2 ⟨hhole, hholes⟩⟩
      rw [htext, hinner, templateInside, templateInside, List.map_cons, String.join_cons]
    refine (gives_templateItem i h).bind fun o ho => ?_
    cases o with
    | none => exact hrest "" none rfl (by simp)
    | some e =>
      refine (gives_expressionText (ho e rfl) hides_bare).bind fun s hs => hrest _ (some s) rfl ?_
      rintro _ ⟨⟩
      exact hs

theorem gives_template (h : LayerFit copied l) : Gives (template place l) (Enclosed copied) := by
  unfold template
  refine (h.elementsOf "quasis").bind fun quasis hquasis => (h.optional "expressions").bind fun o ho => ?_
  extract_lets expressions
  have hexpressions : expressions.Every (Composes copied) := by
    have hnone : (Layer.arr [] : Layer Printable).Every (Composes copied) := ⟨by rintro _ ⟨⟩; nofun, nofun⟩
    unfold expressions
    cases o with
    | none => exact hnone
    | some e =>
      dsimp only
      split
      · exact (ho e rfl).content
      · exact hnone
  refine (gives_templateParts hexpressions quasis 0 hquasis).bind fun text ⟨parts, htext, hraws, hholes⟩ => ends_pure.2 ?_
  subst htext
  exact ⟨.template hraws hholes, opensGroup_append (opensGroup_append (by decide) _) _⟩

theorem gives_array (h : LayerFit copied l) : Gives (array place l) (Composed copied false) := by
  unfold array
  refine (h.elementsOf "elements").bind fun ps hps => ?_
  refine (ends_mapM (P := ComposedPart copied true) fun p hp => ?_).bind fun items hitems => (gives_joined hitems).bind fun s hs => ?_
  · exact ends_ite (fun _ => .text (.atom (by decide))) fun _ => gives_expression (hps p hp) hides_bare
  · split
    · rw [show (",]" : String) = "," ++ "]" from rfl]
      have hgroup : Composed copied false ("[" ++ (s ++ ",") ++ "]") := .group (by decide) (hs.before "," (by decide))
      simp only [← String.append_assoc] at hgroup ⊢
      exact ends_pure.2 hgroup
    · exact ends_pure.2 (.group (by decide) hs)

theorem gives_objectMember (h : p.Every (Composes copied)) : Gives (objectMember place p) (ComposedPart copied true) := by
  unfold objectMember
  extract_lets l
  refine (LayerFit.hasTypeIn _).bind fun _ _ => ends_ite (fun _ => gives_expression h hides_bare) fun _ => ?_
  refine (gives_propertyKey h.layerFit).bind fun key hkey => gives_accessor?.bind fun _ _ => (LayerFit.flag _).bind fun _ _ => ?_
  refine ends_ite (fun _ => ?_) fun _ => ?_
  · exact (gives_method h.layerFit hkey).bind fun s hs => ends_pure.2 (.text hs)
  refine (LayerFit.flag _).bind fun _ _ => ends_ite (fun _ => ?_) fun _ => ?_
  · exact (h.layerFit.require "value").bind fun _ hv => gives_expression hv hides_bare
  · refine (gives_asText hkey).bind fun s hs => (h.layerFit.require "value").bind fun _ hv => ?_
    exact (gives_expressionText hv hides_bare).bind fun t ht => ends_pure.2 (.text ((hs.before ": " (by decide)).append ht))

theorem gives_object (h : LayerFit copied l) : Gives (object place l) (Composed copied false) := by
  unfold object
  refine (h.elementsOf "properties").bind fun ps hps =>
    (ends_mapM fun p hp => gives_objectMember (hps p hp)).bind fun parts hparts => ?_
  exact (gives_joined hparts).bind fun s hs => ends_pure.2 (.group (by decide) hs)

/-! ### Text that binds loosely -/

section Loose

variable (h : LayerFit copied l) (hhides : ∀ required, Hides place required bare)

include h hhides

theorem gives_arrow : Gives (arrow place l) (Composed copied bare) := by
  unfold arrow
  refine (LayerFit.flag _).bind fun async _ => ?_
  extract_lets async
  refine (gives_params h).bind fun params hparams => (h.require "body").bind fun body hbody => ?_
  have hhead : Composed copied bare (async ++ params) := by
    unfold async
    split
    · exact .lead (by decide) hparams.1.anywhere
    · rw [String.empty_append]
      exact hparams.1.anywhere
  refine (LayerFit.hasType _).bind fun _ _ => ends_ite (fun _ => ?_) fun _ => ?_
  · exact (gives_block hbody.layerFit).bind fun s hs => ends_pure.2 (.joint (by decide) hhead hs.1.anywhere)
  · refine (gives_expression hbody (hhides _)).bind fun text htext => ?_
    split
    · next s =>
      refine ends_pure.2 (.joint (by decide) hhead ?_)
      split
      · exact (htext s rfl).bared.parens
      · exact htext s rfl
    · trivial

theorem gives_spread : Gives (spread place l) (Composed copied bare) := by
  unfold spread
  exact (h.require "argument").bind fun _ hp => (gives_expressionText hp (hhides _)).bind fun s hs =>
    ends_pure.2 (.lead (by decide) hs)

theorem gives_defaulted : Gives (defaulted place l) (Composed copied bare) := by
  unfold defaulted
  refine (h.require "left").bind fun _ hleft => (gives_expressionText hleft (hhides _)).bind fun s hs => ?_
  refine (h.require "right").bind fun _ hright => (gives_expressionText hright (hhides _)).bind fun t ht => ends_pure.2 ?_
  exact .joint (by decide) hs ht

theorem gives_assignment (htype : WithoutOperands l) :
    Gives (assignment place l) (Composed copied bare) := by
  unfold assignment
  refine (h.require "left").bind fun _ hleft => (LayerFit.hasTypeIn _).bind fun _ _ => ?_
  refine (gives_expressionText hleft (hhides _)).bind fun s hs => (h.operator htype).bind fun operator hoperator => ?_
  refine (h.require "right").bind fun _ hright => (gives_expressionText hright (hhides _)).bind fun t ht => ends_pure.2 ?_
  exact .assigned hoperator hs ht

theorem gives_sequence : Gives (sequence place l) (Composed copied bare) := by
  unfold sequence
  refine (h.require "expressions").bind fun _ hlist => hlist.layerFit.elements.bind fun ps hps => ?_
  exact (gives_expressions hps (hhides _)).bind fun _ hparts => gives_joined hparts

theorem gives_conditional : Gives (conditional place l) (Composed copied bare) := by
  unfold conditional
  refine (h.require "test").bind fun _ htest => (gives_expressionText htest (hhides _)).bind fun test htest => ?_
  refine (h.require "consequent").bind fun _ hyes => (gives_expressionText hyes (hhides _)).bind fun yes hyes => ?_
  refine (h.require "alternate").bind fun _ hno => (gives_expressionText hno (hhides _)).bind fun no hno => ends_pure.2 ?_
  exact .joint (by decide) (.joint (by decide) htest hyes) hno

theorem gives_yield : Gives (yield place l) (Composed copied bare) := by
  unfold yield
  refine (LayerFit.flag _).bind fun delegate _ => ?_
  extract_lets word
  have hword : word ∈ atoms ∧ word ++ " " ∈ leads := by
    unfold word
    split <;> decide
  refine (h.optional "argument").bind fun o ho => ?_
  cases o with
  | none => exact .atom hword.1
  | some argument =>
    exact (gives_expressionText (ho argument rfl) (hhides _)).bind fun s hs => ends_pure.2 (.lead hword.2 hs)

end Loose

/-! ### Operators -/

theorem gives_operatorPrecedence (operator : Json) : Gives (operatorPrecedence operator) fun precedence =>
    ∃ s, operator = .str s ∧ Precedence.binary? s = some precedence := by
  unfold operatorPrecedence
  split
  · trivial
  · trivial
  · split
    · next hs => exact ⟨_, rfl, hs⟩
    · trivial
  · trivial

theorem membership_in {precedence : Precedence} (h : Precedence.binary? "in" = some precedence) :
    precedence = Precedence.membership := by
  cases h
  rfl

theorem power_precedence {precedence : Precedence} (h : Precedence.binary? "**" = some precedence) :
    precedence ≤ Precedence.postfixOp := by
  cases h
  decide

/-- What is known of the fragment of an expression. -/
def ComposedFragment (copied : CopyKind → String → Prop) (place : Place) (f : Fragment) : Prop :=
  ∀ bare, Hides place f.precedence bare → ComposedPart copied bare f.text

theorem ComposedFragment.closed {precedence : Precedence} {s : String} (h : Composed copied false s) :
    ComposedFragment copied place (fragmentWith precedence s) := fun _ _ => .text h.anywhere

theorem gives_binary (h : LayerFit copied l) : Gives (binary place l) (ComposedFragment copied place) := by
  unfold binary
  refine (h.require "operator").bind fun p _ => ?_
  extract_lets operator power
  refine (gives_operatorPrecedence _).bind fun precedence ⟨sign, hsign, hprecedence⟩ => ?_
  have hpower : power = true → precedence ≤ Precedence.postfixOp := by
    intro hpower
    obtain rfl : sign = "**" := by simpa [power, hsign, Json.string?] using hpower
    exact power_precedence hprecedence
  refine (h.require "left").bind fun _ hleft => (gives_operand hleft _).bind fun left hleft => ?_
  refine (h.require "right").bind fun _ hright => (gives_operand hright _).bind fun right hright => ?_
  -- the operands bind at least as tightly as the operator, so they hide an `in` wherever the operator does
  have hoperand (bare : Bool) (hhides : Hides place precedence bare) :
      ComposedPart copied bare left ∧ ComposedPart copied bare right := by
    refine ⟨hleft bare (hhides.mono ?_), hright bare (hhides.mono ?_)⟩
    · split
      · exact hpower ‹_›
      · exact Nat.le_refl _
    · split
      · exact Nat.le_refl _
      · exact Nat.le_succ _
  have htext (bare : Bool) (hhides : Hides place precedence bare) (hin : sign = "in" → bare = true) {s t : String} (hs : left = .str s)
      (ht : right = .str t) : Composed copied bare (s ++ " " ++ sign ++ " " ++ t) := by
    obtain ⟨hl, hr⟩ := hoperand bare hhides
    exact .operator (by rw [hprecedence]; rfl) hin (hl s hs) (hr t ht)
  rw [hsign]
  cases left with
  | str s =>
    cases right with
    | str t =>
      change Gives (if sign == "in" && place.inHead then _ else _) _
      refine ends_ite (fun _ => ?_) fun hout => ends_pure.2 fun bare hhides => .text (htext bare hhides ?_ rfl rfl)
      · exact ends_pure.2 (.closed (htext true hides_bare (fun _ => rfl) rfl rfl).parens)
      · -- outside of heads, an `in` that is not put in parentheses hides nothing
        rintro rfl
        cases bare with
        | true => rfl
        | false =>
          obtain rfl := membership_in hprecedence
          rcases hhides rfl with hhead | hlt
          · exact absurd (by rw [hhead]; rfl) hout
          · exact absurd hlt (Nat.lt_irrefl _)
    | _ => trivial
  | _ => trivial

theorem gives_unary (h : LayerFit copied l) (htype : WithoutOperands l) :
    Gives (unary place l) (Composed copied false) := by
  unfold unary
  refine (ends_require .all "operator").bind fun p hp => ?_
  extract_lets operator
  refine (h.require "argument").bind fun _ harg => (gives_tight harg (by decide)).bind fun argument harg => ?_
  cases hsign : operator with
  | str sign =>
    have hcopy : copied .sign sign := h.sign htype hp hsign
    refine (gives_asText harg).bind fun s hs => ends_ite (fun _ => ?_) fun _ => ?_
    · exact ends_pure.2 (.signed hcopy (by decide) hs)
    · have htext : Composed copied false (sign ++ "" ++ s) := .signed hcopy (by decide) hs
      rw [String.append_empty] at htext
      exact ends_pure.2 htext
  | _ => trivial

theorem gives_update (h : LayerFit copied l) (htype : WithoutOperands l) :
    Gives (update place l) (ComposedFragment copied place) := by
  unfold update
  refine (h.require "argument").bind fun _ harg => (gives_tight harg (by decide)).bind fun argument harg => ?_
  refine (LayerFit.flag _).bind fun _ _ => (ends_require .all "operator").bind fun p hp => ?_
  refine (LayerFit.gives_source fun _ => h.sign htype hp).bind fun sign hsign => (gives_asText harg).bind fun s hs =>
    ends_ite (fun _ => ?_) fun _ => ?_
  · have htext : Composed copied false (sign ++ "" ++ s) := .signed hsign (by decide) hs
    rw [String.append_empty] at htext
    exact ends_pure.2 (.closed htext)
  · exact ends_pure.2 (.closed (.postfixed hsign hs))

theorem gives_arguments (h : LayerFit copied l) : Gives (arguments place l) (Enclosed copied) := by
  unfold arguments
  refine (h.elementsOf "arguments").bind fun ps hps => (gives_expressions hps hides_bare).bind fun parts hparts => ?_
  exact (gives_joined hparts).bind fun s hs => ends_pure.2 (.group (by decide) hs)

theorem gives_call (h : LayerFit copied l) : Gives (call place l) (Composed copied false) := by
  unfold call
  refine (h.require "callee").bind fun _ hp => (gives_tight hp (by decide)).bind fun callee hcallee => ?_
  exact (gives_arguments h).bind fun s hs => (gives_asText hcallee).bind fun t ht => ends_pure.2 (ht.enclosed hs)

theorem gives_construct (h : LayerFit copied l) : Gives (construct place l) (Composed copied false) := by
  unfold construct
  refine (h.require "callee").bind fun callee hp => ?_
  extract_lets rest
  have hrest (text : String) (htext : Composed copied false text) : Gives (rest text) (Composed copied false) :=
    (gives_arguments h).bind fun s hs => ends_pure.2 ((Composed.lead (by decide) htext).enclosed hs)
  have hcall : Gives callee.callInside fun _ => True := by
    unfold Printable.callInside
    cases callee.note.callInside <;> trivial
  refine hcall.bind fun _ _ => ends_ite (fun _ => ?_) fun _ => ?_
  · exact (gives_expressionText hp hides_bare).bind fun s hs => hrest _ hs.parens
  · exact (gives_tightText hp (by decide)).bind fun s hs => hrest _ hs

theorem gives_memberAccess (h : LayerFit copied l) : Gives (memberAccess place l) (Composed copied false) := by
  unfold memberAccess
  refine (h.require "object").bind fun object hp => (gives_tight hp (by decide)).bind fun text htext => ?_
  have hbare : Gives (isBareNumber (layer object) text) fun _ => True := by
    cases isBareNumber (layer object) text <;> trivial
  refine hbare.bind fun bare _ => (gives_asText htext).bind fun s hs => ?_
  extract_lets text
  have htext : Composed copied false text := by
    unfold text
    split
    · exact hs.bared.parens
    · exact hs
  refine (LayerFit.flag _).bind fun _ _ => ends_ite (fun _ => ?_) fun _ => ?_
  · refine (h.require "property").bind fun _ hp => (gives_expressionText hp hides_bare).bind fun t ht => ends_pure.2 ?_
    have hgroup : Composed copied false (text ++ ("[" ++ t ++ "]")) := htext.enclosed (.group (by decide) ht)
    simp only [← String.append_assoc] at hgroup
    exact hgroup
  · exact (h.nameOf "property").bind fun t ht => ends_pure.2 (.property htext ht)

/-- The text and precedence of an expression node. -/
theorem gives_fragmentOf {type : String} {fields : Fields Printable} (h : LayerFit copied (.obj fields))
    (htype : Fields.type? (Fields.mapValues Annotated.source fields) = some type) :
    Gives (fragmentOf type place (.obj fields)) (ComposedFragment copied place) := by
  have hclosed {act : Except Fault String} {precedence : Precedence} (hact : Gives act (Composed copied false)) :
      Gives (do return fragmentWith precedence (← act)) (ComposedFragment copied place) :=
    hact.bind fun _ hs => ends_pure.2 (.closed hs)
  -- text that binds loosely hides an `in` as its parts do
  have hloose {act : Except Fault String} {precedence : Precedence} (hle : precedence ≤ Precedence.membership)
      (hact : ∀ bare, (∀ required, Hides place required bare) → Gives act (Composed copied bare)) :
      Gives (do return fragmentWith precedence (← act)) (ComposedFragment copied place) := by
    cases hrun : act with
    | error fault => trivial
    | ok s =>
      rw [hrun] at hact
      exact fun bare hhides => .text (hact bare (hhides.anywhere hle))
  have hunbranched (hmem : operandTypes.contains type = false) : WithoutOperands (.obj fields) := by
    rintro _ ⟨⟩
    rw [htype, Option.any_some, hmem]
  unfold fragmentOf
  split
  · exact (ends_require .all "name").bind fun p hp => ends_pure.2 fun _ _ s hs => .name (h.text (by simp) hp hs)
  · exact ends_pure.2 (.closed (.atom (by decide)))
  · exact ends_pure.2 (.closed (.atom (by decide)))
  · refine (h.nameOf "meta").bind fun s hs => (h.nameOf "property").bind fun t ht => ends_pure.2 (.closed ?_)
    exact .property (.name hs) ht
  · unfold Gives
    cases hrun : literal (.obj fields) with
    | error fault => trivial
    | ok j =>
      intro bare _
      have hliteral : Gives (literal (.obj fields)) (ComposedPart copied bare) := gives_literal h (by rintro _ ⟨⟩; exact htype)
      rwa [hrun] at hliteral
  · exact hclosed ((gives_template h).mono fun _ hs => hs.1)
  · refine (h.require "tag").bind fun _ htag => (gives_tight htag (by decide)).bind fun tag htag => ?_
    refine (h.require "quasi").bind fun _ hp => (gives_template hp.layerFit).bind fun s hs => ?_
    exact (gives_asText htag).bind fun t ht => ends_pure.2 (.closed (ht.enclosed hs))
  · exact hclosed (gives_array h)
  · exact hclosed (gives_array h)
  · exact hclosed (gives_object h)
  · exact hclosed (gives_object h)
  · exact hclosed (gives_function h)
  · exact hclosed (gives_classText h)
  · exact hloose (by decide) fun _ => gives_arrow h
  · exact hloose (by decide) fun _ => gives_spread h
  · exact hloose (by decide) fun _ => gives_spread h
  · exact hloose (by decide) fun _ => gives_defaulted h
  · exact hloose (by decide) fun _ hhides => gives_assignment h hhides (hunbranched (by decide))
  · exact hloose (by decide) fun _ => gives_sequence h
  · exact hloose (by decide) fun _ => gives_conditional h
  · exact gives_binary h
  · exact gives_binary h
  · exact hclosed (gives_unary h (hunbranched (by decide)))
  · refine (h.require "argument").bind fun _ hp => (gives_tightText hp (by decide)).bind fun s hs => ends_pure.2 (.closed ?_)
    exact .lead (by decide) hs
  · exact hloose (by decide) fun _ => gives_yield h
  · exact gives_update h (hunbranched (by decide))
  · exact hclosed (gives_call h)
  · exact hclosed (gives_construct h)
  · exact hclosed (gives_memberAccess h)
  · trivial

/-- Targets of declarations bind more tightly than operators. -/
theorem gives_tightFragment {type : String} (hmem : type ∈ targetTypes) :
    Gives (fragmentOf type place l) fun f => Precedence.membership < f.precedence := by
  have hprecedence {act : Except Fault String} {precedence : Precedence} (hlt : Precedence.membership < precedence) :
      Gives (do return fragmentWith precedence (← act)) fun f => Precedence.membership < f.precedence := by
    cases act with
    | error fault => trivial
    | ok s => exact hlt
  simp only [targetTypes, List.mem_cons, List.not_mem_nil, or_false] at hmem
  rcases hmem with rfl | rfl | rfl | rfl
  · exact (ends_require .all "name").bind fun _ _ => ends_pure.2 (show Precedence.membership < Precedence.primary by decide)
  · exact hprecedence (by decide)
  · exact hprecedence (by decide)
  · exact hprecedence (by decide)

/-! ## Statements -/

theorem gives_directive (h : LayerFit copied l) {content : Printable} (hcontent : l.Holds "directive" content) :
    Gives (directive l content) (Composed copied true) := by
  have hliteral : Composed copied true (literalText content.source) := .literal (h.content hcontent)
  unfold directive
  refine (ends_require .all "expression").bind fun e he => (ends_optional .all "raw").bind fun o ho => ?_
  cases o with
  | none => exact ends_pure.2 (hliteral.before ";" (by decide))
  | some raw =>
    refine ends_ite (fun _ => ?_) fun _ => ends_pure.2 (hliteral.before ";" (by decide))
    refine (LayerFit.gives_source fun s hs => h.written hcontent he (ho raw rfl) hs).bind fun s hs => ?_
    exact ends_pure.2 ((Composed.literal hs).before ";" (by decide))

theorem gives_expressionStatement (h : LayerFit copied l) : Gives (expressionStatement place l) (Composed copied true) := by
  unfold expressionStatement
  refine (ends_optional .all "directive").bind fun o ho => ?_
  split
  · next d hd =>
    obtain ⟨rfl, -⟩ := Option.filter_eq_some_iff.1 hd
    exact gives_directive h (ho d rfl)
  · refine (h.require "expression").bind fun _ hp => (gives_expression hp hides_bare).bind fun text htext => ?_
    split
    · next s =>
      refine ends_pure.2 (Composed.before ?_ ";" (by decide))
      split
      · exact (htext s rfl).parens
      · exact htext s rfl
    · trivial

theorem gives_jump (h : LayerFit copied l) {word : String} (hword : word ∈ words) : Gives (jump word l) (Composed copied true) := by
  unfold jump
  refine (h.optional "label").bind fun o ho => ?_
  split
  · next label hlabel =>
    obtain ⟨rfl, -⟩ := Option.filter_eq_some_iff.1 hlabel
    refine (ho label rfl).layerFit.name.bind fun s hs => ends_pure.2 ?_
    exact ((((Composed.word hword).before " " (by decide)).append (.name hs))).before ";" (by decide)
  · exact ends_pure.2 ((Composed.word hword).before ";" (by decide))

theorem gives_branch (h : LayerFit copied l) : Gives (branch place l) (Composed copied true) := by
  unfold branch
  refine (h.require "consequent").bind fun yes hyes => (h.optional "alternate").bind fun o ho => ?_
  cases o with
  | none =>
    refine (h.require "test").bind fun _ hp => (gives_expressionText hp hides_bare).bind fun test htest => ?_
    exact (gives_nested hyes).bind fun s hs => ends_pure.2 ((Composed.within "if " "(" ")" htest (by decide) (by decide)).append hs)
  | some no =>
    have hno := ho no rfl
    refine (LayerFit.hasType _).bind fun wrapped _ => ?_
    refine (h.require "test").bind fun _ hp => (gives_expressionText hp hides_bare).bind fun test htest => ?_
    extract_lets rest
    have hrest (text : String) (htext : Composed copied true text) : Gives (rest text) (Composed copied true) := by
      refine (LayerFit.hasType _).bind fun isBlock _ => ?_
      extract_lets gap
      have hgap : Composed copied true gap := by
        unfold gap
        split
        · exact .word (by decide)
        · exact (Composed.pad place).after "\n" (by decide)
      have hhead := (((Composed.within "if " "(" ")" htest (by decide) (by decide)).append htext).append hgap).before "else" (by decide)
      refine (LayerFit.hasType _).bind fun _ _ => ends_ite (fun _ => ?_) fun _ => ?_
      · exact (gives_statement hno).bind fun s hs => ends_pure.2 (hhead.append (hs.after " " (by decide)))
      · exact (gives_nested hno).bind fun s hs => ends_pure.2 (hhead.append hs)
    refine ends_ite (fun _ => (gives_inBraces ?_).bind fun s hs => hrest _ (hs.1.bared.after " " (by decide))) fun _ =>
      (gives_nested hyes).bind fun s hs => hrest _ hs
    exact List.forall_mem_singleton.2 hyes

/-- The first part of a counted loop's head has nothing bare. -/
theorem gives_loopInit (h : LayerFit copied l) : Gives (loopInit place.head l) (ComposedPart copied false) := by
  have hhides (required : Precedence) : Hides place.head required false := fun _ => .inl rfl
  unfold loopInit
  refine (h.optional "init").bind fun o ho => ?_
  cases o with
  | none => exact ends_pure.2 (.text (.atom (by decide)))
  | some init =>
    refine (LayerFit.hasType _).bind fun _ _ => ends_ite (fun _ => ?_) fun _ => gives_expression (ho init rfl) (hhides _)
    refine (gives_declaration (ho init rfl).layerFit fun _ _ _ _ _ _ hp => gives_declarator hp (hhides _)).bind fun s hs =>
      ends_pure.2 (.text hs)

theorem gives_optionalExpression (h : LayerFit copied l) (key : String) :
    Gives (optionalExpression place key l) (ComposedPart copied true) := by
  unfold optionalExpression
  refine (h.optional key).bind fun o ho => ?_
  cases o with
  | none => exact ends_pure.2 (.text (.word (by decide)))
  | some e => exact gives_expression (ho e rfl) hides_bare

theorem gives_countedLoop (h : LayerFit copied l) : Gives (countedLoop place l) (Composed copied true) := by
  unfold countedLoop
  refine (gives_loopInit h).bind fun init hinit => (gives_optionalExpression h "test").bind fun test htest => ?_
  refine (gives_optionalExpression h "update").bind fun update hupdate => ?_
  refine (gives_asText hinit).bind fun s hs => (gives_asText htest).bind fun t ht => (gives_asText hupdate).bind fun u hu => ?_
  extract_lets head
  have hhead : Composed copied true head := by
    have hinner := (((hs.bared.before "; " (by decide)).append ht).before "; " (by decide)).append hu
    have hgroup : Composed copied true ("for " ++ "(" ++ _ ++ ")") := .within "for " "(" ")" hinner (by decide) (by decide)
    simp only [← String.append_assoc] at hgroup
    exact hgroup
  exact (h.require "body").bind fun _ hbody => (gives_nested hbody).bind fun b hb => ends_pure.2 (hhead.append hb)

theorem gives_loopTarget (h : p.Every (Composes copied)) : Gives (loopTarget place p) (Composed copied true) := by
  unfold loopTarget
  refine (LayerFit.hasType _).bind fun _ _ => ends_ite (fun _ => ?_) fun _ => gives_expressionText h hides_bare
  exact gives_declaration h.layerFit fun _ _ _ _ _ _ hp => gives_declarator hp hides_bare

theorem gives_eachLoop (h : LayerFit copied l) {word : String} {required : Precedence} (hword : word ∈ words) :
    Gives (eachLoop word required place l) (Composed copied true) := by
  unfold eachLoop
  refine (h.require "left").bind fun _ hleft => (gives_loopTarget hleft).bind fun target htarget => ?_
  refine (h.require "right").bind fun _ hright => (gives_expressionText hright hides_bare).bind fun source hsource => ?_
  refine (h.require "body").bind fun _ hbody => (gives_nested hbody).bind fun b hb => ends_pure.2 ?_
  have hgroup : Composed copied true ("for " ++ "(" ++ _ ++ ")") :=
    .within "for " "(" ")" ((htarget.before word hword).append hsource) (by decide) (by decide)
  simp only [← String.append_assoc] at hgroup
  exact hgroup.append hb

theorem gives_whileLoop (h : LayerFit copied l) : Gives (whileLoop place l) (Composed copied true) := by
  unfold whileLoop
  refine (h.require "test").bind fun _ hp => (gives_expressionText hp hides_bare).bind fun test htest => ?_
  refine (h.require "body").bind fun _ hbody => (gives_nested hbody).bind fun b hb => ends_pure.2 ?_
  exact (Composed.within "while " "(" ")" htest (by decide) (by decide)).append hb

theorem gives_doLoop (h : LayerFit copied l) : Gives (doLoop place l) (Composed copied true) := by
  unfold doLoop
  refine (h.require "body").bind fun _ hbody => (gives_nested hbody).bind fun text htext =>
    (LayerFit.hasType _).bind fun isBlock _ => ?_
  extract_lets gap
  have hgap : Composed copied true gap := by
    unfold gap
    split
    · exact .word (by decide)
    · exact (Composed.pad place).after "\n" (by decide)
  refine (h.require "test").bind fun _ hp => (gives_expressionText hp hides_bare).bind fun test htest => ends_pure.2 ?_
  have hhead := ((htext.after "do" (by decide)).append hgap).append
    ((Composed.within "while " "(" ")" htest (by decide) (by decide)).before ";" (by decide))
  rw [show (");" : String) = ")" ++ ";" from rfl, show "while (" = "while " ++ "(" from rfl]
  simp only [← String.append_assoc] at hhead ⊢
  exact hhead

theorem gives_handler (h : LayerFit copied l) : Gives (handler place l) (Composed copied true) := by
  unfold handler
  extract_lets rest
  have hrest (param : String) (hparam : Composed copied true param) : Gives (rest param) (Composed copied true) :=
    (gives_body h).bind fun b hb => ends_pure.2 (((hparam.after " catch" (by decide)).before " " (by decide)).append hb.1.bared)
  refine (h.optional "param").bind fun o ho => ?_
  cases o with
  | none => exact hrest "" (.word (by decide))
  | some param =>
    refine (gives_expressionText (ho param rfl) hides_bare).bind fun s hs => hrest _ ?_
    exact .within " " "(" ")" hs (by decide) (by decide)

theorem gives_tryStatement (h : LayerFit copied l) : Gives (tryStatement place l) (Composed copied true) := by
  unfold tryStatement
  refine (h.require "block").bind fun block hblock => (gives_block hblock.layerFit).bind fun guarded hguarded => ?_
  extract_lets rest
  have hrest (caught : String) (hcaught : Composed copied true caught) : Gives (rest caught) (Composed copied true) := by
    have hhead := (hguarded.1.bared.after "try " (by decide)).append hcaught
    refine (h.optional "finalizer").bind fun o ho => ?_
    cases o with
    | none => exact ends_pure.2 (hhead.append (.word (by decide)))
    | some f =>
      exact (gives_block (ho f rfl).layerFit).bind fun s hs =>
        ends_pure.2 (hhead.append (hs.1.bared.after " finally " (by decide)))
  refine (h.optional "handler").bind fun o ho => ?_
  cases o with
  | none => exact hrest "" (.word (by decide))
  | some c => exact (gives_handler (ho c rfl).layerFit).bind fun s hs => hrest _ hs

theorem gives_switchCase (h : p.Every (Composes copied)) : Gives (switchCase place p) (Composed copied true) := by
  unfold switchCase
  extract_lets rest
  have hrest (label : String) (hlabel : Composed copied true label) : Gives (rest label) (Composed copied true) := by
    refine (h.layerFit.elementsOf "consequent").bind fun ps hps =>
      (ends_mapM (P := Composed copied true) fun p hp => ?_).bind fun lines hlines => ?_
    · exact (gives_statement (hps p hp)).bind fun s hs => ends_pure.2 (((Composed.pad _).after "\n" (by decide)).append hs)
    · exact ends_pure.2 ((((Composed.pad place).after "\n" (by decide)).append hlabel).append (.join hlines))
  refine (h.layerFit.optional "test").bind fun o ho => ?_
  cases o with
  | none => exact hrest _ (.word (by decide))
  | some test =>
    exact (gives_expressionText (ho test rfl) hides_bare).bind fun s hs =>
      hrest _ ((hs.after "case " (by decide)).before ":" (by decide))

theorem gives_switchStatement (h : LayerFit copied l) : Gives (switchStatement place l) (Composed copied true) := by
  unfold switchStatement
  refine (h.require "discriminant").bind fun _ hp => (gives_expressionText hp hides_bare).bind fun s hs => ?_
  refine (h.elementsOf "cases").bind fun ps hps => (ends_mapM fun p hp => gives_switchCase (hps p hp)).bind fun lines hlines =>
    ends_pure.2 ?_
  have hinner := ((Composed.join hlines).before "\n" (by decide)).append (.pad place)
  have hgroup : Composed copied true _ := (Composed.within "switch " "(" ")" hs (by decide) (by decide)).append
    (.within " " "\x7b" "\x7d" hinner (by decide) (by decide))
  rw [show ") \x7b" = ")" ++ " " ++ "\x7b" from rfl, show "switch (" = "switch " ++ "(" from rfl]
  simp only [← String.append_assoc] at hgroup ⊢
  exact hgroup

/-- The text of a statement node. -/
theorem gives_statementOf {type : String} (h : LayerFit copied l) : Gives (statementOf type place l) (Composed copied true) := by
  unfold statementOf
  split
  · exact (gives_block h).mono fun _ hs => hs.1.bared
  · exact ends_pure.2 (.word (by decide))
  · exact ends_pure.2 (.word (by decide))
  · exact gives_expressionStatement h
  · exact (gives_declaration h fun _ _ _ _ _ _ hp => gives_declarator hp hides_bare).bind fun s hs =>
      ends_pure.2 (hs.before ";" (by decide))
  · exact (gives_function h).mono fun _ hs => hs.bared
  · exact (gives_classText h).mono fun _ hs => hs.bared
  · refine (h.optional "argument").bind fun o ho => ?_
    cases o with
    | none => exact ends_pure.2 (.word (by decide))
    | some argument =>
      exact (gives_expressionText (ho argument rfl) hides_bare).bind fun s hs =>
        ends_pure.2 ((hs.after "return " (by decide)).before ";" (by decide))
  · refine (h.require "argument").bind fun _ hp => (gives_expressionText hp hides_bare).bind fun s hs => ends_pure.2 ?_
    exact (hs.after "throw " (by decide)).before ";" (by decide)
  · exact gives_jump h (by decide)
  · exact gives_jump h (by decide)
  · refine (h.nameOf "label").bind fun s hs => (h.require "body").bind fun _ hp => (gives_statement hp).bind fun t ht => ends_pure.2 ?_
    exact ((Composed.name hs).before ": " (by decide)).append ht
  · exact gives_branch h
  · exact gives_countedLoop h
  · exact gives_eachLoop h (by decide)
  · exact gives_eachLoop h (by decide)
  · exact gives_whileLoop h
  · exact gives_doLoop h
  · exact gives_tryStatement h
  · exact gives_switchStatement h
  · trivial

/-! ## Any value -/

theorem gives_typeText {fields : Fields Printable} : Gives (Printable.textOf "type" (.obj fields)) fun type =>
    Fields.type? (Fields.mapValues Annotated.source fields) = some type := by
  refine (ends_require .all "type").bind fun p ⟨_, hl, hget⟩ => ?_
  cases hl
  cases hsource : p.source with
  | str s => exact Fields.type?_of_get? (by rw [Fields.get?_mapValues, hget, Option.map_some, hsource])
  | _ => trivial

/-- The printed forms of a value all texts in which may be copied are composed. -/
theorem every_composes {j : Json} (h : ∀ kind, ∀ s ∈ j.copies kind, copied kind s) : (j.annotate forms).Every (Composes copied) := by
  refine .annotate (D := fun j => ∀ kind, ∀ s ∈ j.copies kind, copied kind s) ?_ ?_ (fun j hj hitems hfields => ?_) j h
  · exact fun items hj x hx kind s hs => hj kind s (Json.copies_item hx hs)
  · exact fun fields hj f hf kind s hs => hj kind s (Json.copies_field hf hs)
  have hplain : j = Annotated.plain (j.annotate forms).content := (plain_annotate forms j).symm
  have hsource : (j.annotate forms).source = j := Json.source_annotate forms j
  have hnote : (j.annotate forms).note = forms (j.annotate forms).content := by cases j <;> rfl
  have hcopies (fields : Fields Json) (hfields : j = .obj fields) (kind : CopyKind) (s : String)
      (hs : s ∈ copiedTexts fields kind) : copied kind s := hj kind s (hfields ▸ Json.copies_here hs)
  have hfit : LayerFit copied (j.annotate forms).content := by
    refine ⟨⟨hitems, hfields⟩, fun fields hl => hcopies _ ?_⟩
    rw [hplain, hl]
    rfl
  cases hl : (j.annotate forms).content with
  | obj fields =>
    have hobj : j = .obj (Fields.mapValues Annotated.source fields) := by
      rw [hplain, hl]
      rfl
    rw [hl] at hfit hnote
    refine ⟨by rw [hsource, ← hplain], fun fields hfields => hcopies fields (hsource ▸ hfields), fun place => ?_, fun place => ?_, ?_⟩
    · rw [hnote]
      exact gives_typeText.bind fun _ _ => gives_statementOf hfit
    · rw [hnote]
      exact gives_typeText.bind fun _ htype => gives_fragmentOf hfit htype
    · intro place hone
      rw [hsource, hobj] at hone
      rw [hnote]
      refine gives_typeText.bind fun type htype => gives_tightFragment ?_
      rwa [Json.isOneOf, Json.type?, htype, Option.any_some, List.contains_iff_mem] at hone
  | _ =>
    rw [hl] at hnote
    refine ⟨by rw [hsource, ← hplain], fun fields hfields => hcopies fields (hsource ▸ hfields), fun place => ?_, fun place => ?_, ?_⟩
    · rw [hnote]
      trivial
    · rw [hnote]
      trivial
    · intro place _
      rw [hnote]
      trivial

end Printable

end ScriptTrace
