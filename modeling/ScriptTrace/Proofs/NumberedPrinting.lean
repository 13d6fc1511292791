import ScriptTrace.Proofs.NumberedReading

/-!
# Printing numbered trees

Printing comes to the same end for all numbers of earlier loop variables: the same fault, or texts that one template
gives. No decision of the printer depends on a name of a loop variable, since none begins in a way that matters.

* `Forms.Numbered` : the printed forms of numbered values;
* `numbered_statementOf`, `numbered_fragmentOf` : the texts of statements and of expressions;
* `Json.Numbered.printNode` : the text of a whole tree;
* `Json.Numbered.conditionText` : the text by which a condition is shown.
-/

namespace ScriptTrace

open Printable

/-- A text, or a fault. -/
abbrev AgreedText (m : Nat) : (Nat → Except Fault String) → Prop := Agreed (NumberedText m)

/-- A value that is still to be joined to other text, or a fault. -/
abbrev AgreedPart (m : Nat) : (Nat → Except Fault Json) → Prop := Agreed (Json.Numbered m true)

/-- The texts of an expression, which all bind as tightly. -/
structure Fragment.Numbered (m : Nat) (f : Nat → Fragment) : Prop where
  text : Json.Numbered m true fun c => (f c).text
  precedence : Constant fun c => (f c).precedence

structure Forms.Numbered (m : Nat) (f : Nat → Forms) : Prop where
  callInside : Agreed Constant fun c => (f c).callInside
  statement (place : Place) : AgreedText m fun c => (f c).statement place
  fragment (place : Place) : Agreed (Fragment.Numbered m) fun c => (f c).fragment place

variable {m d : Nat} {loose : Bool}

theorem Json.Numbered.asText {j : Nat → Json} (h : Json.Numbered m loose j) : AgreedText m fun c => ScriptTrace.asText (j c) := by
  cases h with
  | str => exact .answer (.const _ _)
  | text h => exact .answer h
  | _ => exact .fault _

theorem agreed_joined {parts : Nat → List Json} (h : NumberedList (Json.Numbered m true) parts) :
    AgreedText m fun c => joined (parts c) :=
  (Agreed.mapM h fun _ hj => hj.asText).bind fun _ hs => .pure (.intercalate ", " hs)

theorem Fragment.numbered {t : Nat → String} (h : NumberedText m t) (precedence : Precedence) :
    Fragment.Numbered m fun c => fragmentWith precedence (t c) := ⟨.text h, constant _⟩

/-- The text of an expression of a given precedence. -/
theorem AgreedText.fragment {r : Nat → Except Fault String} (h : AgreedText m r) (precedence : Precedence) :
    Agreed (Fragment.Numbered m) fun c => do return fragmentWith precedence (← r c) :=
  h.bind fun _ ht => .pure (Fragment.numbered ht precedence)

/-- No name of a loop variable is read as something else at the start of a statement. -/
theorem NumberedText.startsAmbiguously {s : Nat → String} (h : NumberedText m s) (c : Nat) :
    Printable.startsAmbiguously (s c) = Printable.startsAmbiguously (s 0) := by
  have hstart : ∀ start ∈ ambiguousStarts, '_' ∉ start.toList := by decide
  unfold Printable.startsAmbiguously
  rw [Bool.eq_iff_iff, List.any_eq_true, List.any_eq_true]
  exact exists_congr fun start => and_congr_right fun hmem => by rw [h.startsWith (hstart start hmem) c]

/-- A numbered value with its forms. -/
abbrev NumberedPrintable (m d : Nat) : Bool → (Nat → Printable) → Prop := Annotated.Numbered forms m d

theorem readable_printable (m d : Nat) : Readable m (NumberedPrintable m d) := Annotated.Numbered.readable forms m d

/-- The forms of numbered values that are smaller than `d` are numbered. -/
def NumberedBelow (m d : Nat) : Prop := ∀ {loose p}, NumberedPrintable m d loose p → Forms.Numbered m fun c => (p c).note

section Rules

variable {p : Nat → Printable} {l : Nat → Layer Printable}

/-! ## Parts of nodes -/

theorem agreed_textOf (key : String) (h : Layer.Numbered m (NumberedPrintable m d) loose l) : AgreedText m fun c => textOf key (l c) :=
  (h.require key).bind fun _ hx => hx.source.asText

theorem agreed_nameOf (key : String) (h : Layer.Numbered m (NumberedPrintable m d) loose l) : AgreedText m fun c => nameOf key (l c) :=
  (h.require key).bind fun _ hx => agreed_textOf "name" hx.layer

variable (hbelow : NumberedBelow m d)

include hbelow

theorem agreed_expression (place : Place) (required : Precedence) (hp : NumberedPrintable m d loose p) :
    AgreedPart m fun c => (p c).expression place required := by
  refine ((hbelow hp).fragment place).bind fun f hf => ?_
  obtain ⟨precedence, hprecedence⟩ := hf.precedence.eq
  simp only [hprecedence]
  exact .ite (fun _ => hf.text.asText.bind fun _ ht => .pure (.text ((ht.after "(").before ")"))) fun _ => .pure hf.text

theorem agreed_expressionText (place : Place) (required : Precedence) (hp : NumberedPrintable m d loose p) :
    AgreedText m fun c => (p c).expressionText place required :=
  (agreed_expression hbelow place required hp).bind fun _ hj => hj.asText

theorem agreed_inBraces (place : Place) {statements : Nat → List Printable} (hs : NumberedList (NumberedPrintable m d false) statements) :
    AgreedText m fun c => inBraces place (statements c) := by
  refine Agreed.bind (R := NumberedList (NumberedText m)) (.mapM hs fun p hp => ?_) fun _ hlines => .pure ?_
  · exact ((hbelow hp).statement place.deeper).bind fun _ ht => .pure (ht.after _)
  · exact ((((NumberedText.intercalate "\n" hlines).after _).before _).before _).before _

/-- Several expressions in a row. -/
theorem agreed_expressions (place : Place) {items : Nat → List Printable} (hs : NumberedList (NumberedPrintable m d false) items) :
    AgreedText m fun c => (items c).mapM (·.expression place .assign) >>= joined :=
  (Agreed.mapM hs fun _ hp => agreed_expression hbelow place .assign hp).bind fun _ hparts => agreed_joined hparts

variable (h : Layer.Numbered m (NumberedPrintable m d) loose l)

include h

/-- The expression that must be there under a key. -/
theorem agreed_operand {β : Type} {P : (Nat → β) → Prop} (key : String) (place : Place) (required : Precedence)
    {f : Nat → String → Except Fault β} (hf : ∀ t, NumberedText m t → Agreed P fun c => f c (t c)) :
    Agreed P (fun c => do
      let e ← (l c).require key
      let t ← e.expressionText place required
      f c t) :=
  (h.require key).bind fun _ hx => (agreed_expressionText hbelow place required hx).bind hf

theorem agreed_block (place : Place) : AgreedText m fun c => block place (l c) := by
  have hread := readable_printable m d
  refine (h.optional hread "body").bind fun o ho => ?_
  cases ho with
  | none => exact .pure (.const _ _)
  | some hbody =>
    obtain ⟨b, hb⟩ := hbody.layer.truthy.eq
    simp only [hb]
    exact .ite (fun _ => (hbody.layer.elements hread).bind fun _ hs => agreed_inBraces hbelow place hs) fun _ => .pure (.const _ _)

omit h in
theorem agreed_nested (place : Place) (hp : NumberedPrintable m d loose p) : AgreedText m fun c => nested place (p c) := by
  refine .test (hp.layer.hasType (readable_printable m d) _) ?_ ?_
  · exact (agreed_block hbelow hp.layer place).bind fun _ ht => .pure (ht.after _)
  · exact ((hbelow hp).statement place.deeper).bind fun _ ht => .pure (ht.after _)

omit h in
theorem agreed_declarator (place : Place) (hp : NumberedPrintable m d loose p) : AgreedPart m fun c => declarator place (p c) := by
  refine (hp.layer.require "id").bind fun _ hid => (agreed_expression hbelow place .assign hid).bind fun target htarget => ?_
  refine (hp.layer.optional (readable_printable m d) "init").bind fun o ho => ?_
  cases ho with
  | none => exact .pure htarget
  | some hvalue =>
    refine (agreed_expressionText hbelow place .assign hvalue).bind fun _ ht => htarget.asText.bind fun _ hs => .pure (.text ?_)
    exact (hs.before _).append ht

theorem agreed_declaration (place : Place) : AgreedText m fun c => declaration place (l c) := by
  refine (h.require "declarations").bind fun _ hx => (hx.layer.elements (readable_printable m d)).bind fun _ hxs => ?_
  refine (Agreed.mapM hxs fun _ hp => agreed_declarator hbelow place hp).bind fun _ hparts => ?_
  exact (agreed_textOf "kind" h).bind fun _ hkind => (agreed_joined hparts).bind fun _ ht => .pure ((hkind.before _).append ht)

theorem agreed_params (place : Place) : AgreedText m fun c => params place (l c) := by
  refine (h.elementsOf (readable_printable m d) "params" rfl).bind fun _ hxs => ?_
  refine (Agreed.mapM hxs fun _ hp => agreed_expression hbelow place .assign hp).bind fun _ hparts => ?_
  exact (agreed_joined hparts).bind fun _ ht => .pure ((ht.after _).before _)

theorem agreed_body (place : Place) : AgreedText m fun c => body place (l c) :=
  (h.require "body").bind fun _ hx => agreed_block hbelow hx.layer place

theorem agreed_function (place : Place) : AgreedText m fun c => function place (l c) := by
  have hread := readable_printable m d
  have hrest (async star : String) (name : Nat → String) (hname : NumberedText m name) : AgreedText m (fun c => do
      let params ← params place (l c)
      return async ++ "function" ++ star ++ name c ++ params ++ " " ++ (← body place (l c))) := by
    refine (agreed_params hbelow h place).bind fun _ hparams => (agreed_body hbelow h place).bind fun _ hbody => .pure ?_
    exact (((hname.after _).append hparams).before _).append hbody
  refine (h.flag hread "async").known fun async => (h.flag hread "generator").known fun star => (h.optional hread "id").bind fun o ho => ?_
  cases ho with
  | none => exact hrest _ _ _ (.const _ _)
  | some hid => exact (agreed_textOf "name" hid.layer).bind fun _ hname => hrest _ _ _ (hname.after " ")

theorem agreed_propertyKey (place : Place) : AgreedPart m fun c => propertyKey place (l c) := by
  refine .test (h.flag (readable_printable m d) "computed") ?_ ?_
  · exact agreed_operand hbelow h "key" place .assign fun _ ht => .pure (.text ((ht.after _).before _))
  · exact (h.require "key").bind fun _ hx => agreed_expression hbelow place .primary hx

omit hbelow in
theorem agreed_accessor? : Agreed Constant fun c => accessor? (l c) := by
  refine (h.optional (readable_printable m d) "kind").bind fun o ho => ?_
  cases ho with
  | none => exact .pure (constant _)
  | @some kind hkind =>
    have hsource : Json.Numbered m false fun c => (kind c).source := hkind.source
    generalize hk : (fun c => (kind c).source) = k at hsource
    have hk (c : Nat) : (kind c).source = k c := congrFun hk c
    simp only [Option.map_some, hk]
    cases hsource with
    | str => exact .same _
    | _ => exact .pure (constant _)

theorem agreed_method (place : Place) {key : Nat → Json} (hkey : Json.Numbered m true key) :
    AgreedText m fun c => method place (l c) (key c) := by
  have hread := readable_printable m d
  refine (h.require "value").bind fun value hvalue => (agreed_accessor? h).known fun kind? => ?_
  have hrest (before : String) : AgreedText m (fun c => do
      let key ← ScriptTrace.asText (key c)
      let params ← params place (layer (value c))
      return before ++ key ++ params ++ " " ++ (← body place (layer (value c)))) := by
    refine hkey.asText.bind fun _ hk => (agreed_params hbelow hvalue.layer place).bind fun _ hparams => ?_
    refine (agreed_body hbelow hvalue.layer place).bind fun _ hbody => .pure ?_
    exact (((hk.after _).append hparams).before _).append hbody
  cases kind? with
  | some kind => exact hrest _
  | none => exact (hvalue.layer.flag hread "async").known fun _ => (hvalue.layer.flag hread "generator").known fun _ => hrest _

omit h in
theorem agreed_member (place : Place) (hp : NumberedPrintable m d loose p) : AgreedText m fun c => member place (p c) := by
  refine (hp.layer.flag (readable_printable m d) "static").known fun _ => (agreed_propertyKey hbelow hp.layer place).bind fun _ hkey => ?_
  exact (agreed_method hbelow hp.layer place hkey).bind fun _ ht => .pure (ht.after _)

/-- A class after its name and its base. -/
theorem agreed_classMembers (place : Place) {head : Nat → String} (hhead : NumberedText m head) : AgreedText m (fun c => do
    let members ← (layer (← (l c).require "body")).elementsOf "body"
    if members.isEmpty then return head c ++ " \x7b\x7d" else
    let lines ← members.mapM (member place.deeper)
    return head c ++ " \x7b\n" ++ "\n".intercalate lines ++ "\n" ++ place.pad ++ "\x7d") := by
  refine (h.require "body").bind fun _ hx => (hx.layer.elementsOf (readable_printable m d) "body" rfl).bind fun members hmembers => ?_
  obtain ⟨ms, rfl, hms⟩ := hmembers
  simp only [List.isEmpty_map]
  refine .ite (fun _ => .pure (hhead.before _)) fun _ => ?_
  refine Agreed.bind (R := NumberedList (NumberedText m)) (.mapM ⟨ms, rfl, hms⟩ fun p hp => agreed_member hbelow place.deeper hp)
    fun _ hlines => .pure ?_
  exact ((((hhead.before _).append (.intercalate _ hlines)).before _).before _).before _

/-- A class after its name. -/
theorem agreed_classRest (place : Place) {name : Nat → String} (hname : NumberedText m name) : AgreedText m (fun c => do
    let base ← match ← (l c).optional "superClass" with
      | some base => pure (" extends " ++ (← base.expressionText place .call))
      | none => pure ""
    let members ← (layer (← (l c).require "body")).elementsOf "body"
    if members.isEmpty then return "class" ++ name c ++ base ++ " \x7b\x7d" else
    let lines ← members.mapM (member place.deeper)
    return "class" ++ name c ++ base ++ " \x7b\n" ++ "\n".intercalate lines ++ "\n" ++ place.pad ++ "\x7d") := by
  have hhead := hname.after "class"
  refine (h.optional (readable_printable m d) "superClass").bind fun o ho => ?_
  cases ho with
  | none => exact agreed_classMembers hbelow h place (hhead.append (.const _ _))
  | some hx =>
    exact (agreed_expressionText hbelow place .call hx).bind fun _ ht => agreed_classMembers hbelow h place (hhead.append (ht.after _))

theorem agreed_classText (place : Place) : AgreedText m fun c => classText place (l c) := by
  refine (h.optional (readable_printable m d) "id").bind fun o ho => ?_
  cases ho with
  | none => exact agreed_classRest hbelow h place (.const _ _)
  | some hid => exact (agreed_textOf "name" hid.layer).bind fun _ hname => agreed_classRest hbelow h place (hname.after " ")

/-! ## Expressions -/

omit hbelow in
theorem agreed_literal : AgreedPart m fun c => literal (l c) := by
  have hread := readable_printable m d
  refine (h.optional hread "raw").bind fun o ho => ?_
  cases ho with
  | some hraw => exact .pure hraw.source
  | none =>
    refine (h.optional hread "value").bind fun o ho => .pure ?_
    cases ho with
    | none => exact .text (.const _ _)
    | some hvalue => exact .text hvalue.source.literalText

omit hbelow h in
theorem agreed_templateItem (i : Nat) {es : Nat → Layer Printable} (hes : Layer.Numbered m (NumberedPrintable m d) false es) :
    Agreed (NumberedOption (NumberedPrintable m d false)) fun c => templateItem i (es c) := by
  have hitem : Agreed (NumberedOption (NumberedPrintable m d false)) fun c => do return (← (es c).elements)[i]? := by
    refine (hes.elements (readable_printable m d)).bind fun items hitems => .pure ?_
    obtain ⟨xs, rfl, hxs⟩ := hitems
    simp only [List.getElem?_map]
    cases hx : xs[i]? with
    | none => exact .none
    | some x => exact .some (hxs x (List.mem_of_getElem? hx))
  cases hes with
  | obj _ fields =>
    simp only [templateItem, Fields.at, Fields.mapValues, List.length_map]
    exact .ite (fun _ => .fault _) fun _ => .answer .none
  | _ => exact hitem

omit h in
theorem agreed_templateParts (place : Place) {es : Nat → Layer Printable} (hes : Layer.Numbered m (NumberedPrintable m d) false es)
    {quasis : Nat → List Printable} (hquasis : NumberedList (NumberedPrintable m d false) quasis) :
    ∀ i, AgreedText m fun c => templateParts place (es c) i (quasis c) := by
  obtain ⟨qs, rfl, hqs⟩ := hquasis
  induction qs with
  | nil => exact fun _ => .answer (.const _ _)
  | cons q qs ih =>
    intro i
    obtain ⟨hq, hqs⟩ := List.forall_mem_cons.1 hqs
    refine (hq.layer.require "value").bind fun _ hvalue => (agreed_textOf "raw" hvalue.layer).bind fun raw hraw => ?_
    have hrest (inner : Nat → String) (hinner : NumberedText m inner) : AgreedText m fun c => do
        return raw c ++ inner c ++ (← templateParts place (es c) (i + 1) (qs.map (· c))) :=
      (ih hqs (i + 1)).bind fun _ hrest => .pure ((hraw.append hinner).append hrest)
    refine (agreed_templateItem i hes).bind fun o ho => ?_
    cases ho with
    | none => exact hrest _ (.const _ _)
    | some he => exact (agreed_expressionText hbelow place .sequence he).bind fun _ ht => hrest _ ((ht.after _).before _)

theorem agreed_template (place : Place) : AgreedText m fun c => template place (l c) := by
  have hread := readable_printable m d
  refine (h.elementsOf hread "quasis" rfl).bind fun quasis hquasis => (h.optional hread "expressions").bind fun o ho => ?_
  have hparts {es : Nat → Layer Printable} (hes : Layer.Numbered m (NumberedPrintable m d) false es) :
      AgreedText m fun c => do return "\x60" ++ (← templateParts place (es c) 0 (quasis c)) ++ "\x60" :=
    (agreed_templateParts hbelow place hes hquasis 0).bind fun _ ht => .pure ((ht.after _).before _)
  cases ho with
  | none => exact hparts (.arr _ [] (List.forall_mem_nil _))
  | some he =>
    obtain ⟨b, hb⟩ := he.layer.truthy.eq
    simp only [hb]
    cases b with
    | true => exact hparts he.layer
    | false => exact hparts (.arr _ [] (List.forall_mem_nil _))

theorem agreed_array (place : Place) : AgreedText m fun c => array place (l c) := by
  refine (h.elementsOf (readable_printable m d) "elements" rfl).bind fun elements helements => ?_
  refine (Agreed.mapM (P := Json.Numbered m true) helements fun p hp => ?_).bind fun items hitems => ?_
  · obtain ⟨b, hb⟩ := hp.layer.isNull.eq
    simp only [hb]
    exact .ite (fun _ => .answer (.str _ _)) fun _ => agreed_expression hbelow place .assign hp
  · refine (agreed_joined hitems).bind fun text ht => ?_
    obtain ⟨xs, rfl, hxs⟩ := hitems
    simp only [List.getLast?_map]
    cases hlast : xs.getLast? with
    | none => exact .pure ((ht.after _).before _)
    | some x =>
      have hx := (hxs x (List.mem_of_getLast? hlast)).eq_str (show '_' ∉ "".toList by decide)
      by_cases hempty : x 0 = .str ""
      · refine Agreed.of_eq (.pure ((ht.after "[").before ",]")) fun c => ?_
        simp only [Option.map_some, (hx c).2 hempty]
      · refine Agreed.of_eq (.pure ((ht.after "[").before "]")) fun c => ?_
        split
        · next h => exact absurd ((hx c).1 (Option.some.inj h)) hempty
        · rfl

omit h in
theorem agreed_objectMember (place : Place) (hp : NumberedPrintable m d loose p) : AgreedPart m fun c => objectMember place (p c) := by
  have hread := readable_printable m d
  have hl := hp.layer
  have hvalue : AgreedPart m (fun c => do (← (layer (p c)).require "value").expression place .assign) :=
    (hl.require "value").bind fun _ hx => agreed_expression hbelow place .assign hx
  refine .test (hl.hasTypeIn hread _) (agreed_expression hbelow place .assign hp) ?_
  refine (agreed_propertyKey hbelow hl place).bind fun key hkey => (agreed_accessor? hl).known fun kind? => ?_
  have hmethod : AgreedPart m (fun c => do return .str (← method place (layer (p c)) (key c))) :=
    (agreed_method hbelow hl place hkey).bind fun _ ht => .pure (.text ht)
  refine (hl.flag hread "method").known fun _ => .ite (fun _ => hmethod) fun _ => .test (hl.flag hread "shorthand") hvalue ?_
  exact hkey.asText.bind fun _ hk => agreed_operand hbelow hl "value" place .assign fun _ ht => .pure (.text ((hk.before _).append ht))

theorem agreed_object (place : Place) : AgreedText m fun c => object place (l c) := by
  refine (h.elementsOf (readable_printable m d) "properties" rfl).bind fun _ hxs => ?_
  refine (Agreed.mapM hxs fun _ hp => agreed_objectMember hbelow place hp).bind fun _ hparts => ?_
  exact (agreed_joined hparts).bind fun _ ht => .pure ((ht.after _).before _)

theorem agreed_arrow (place : Place) : AgreedText m fun c => arrow place (l c) := by
  have hread := readable_printable m d
  refine (h.flag hread "async").known fun _ => (agreed_params hbelow h place).bind fun params hparams => ?_
  refine (h.require "body").bind fun _ hbody => .test (hbody.layer.hasType hread _) ?_ ?_
  · exact (agreed_block hbelow hbody.layer place).bind fun _ ht => .pure (((hparams.after _).before _).append ht)
  · refine (agreed_expression hbelow place .assign hbody).bind fun j hj => ?_
    have htext {s : Nat → String} (hs : NumberedText m s) : NumberedText m fun c =>
        if startsWith "\x7b" (s c) then "(" ++ s c ++ ")" else s c := by
      simp only [hs.startsWith (show '_' ∉ "\x7b".toList by decide)]
      split
      · exact (hs.after _).before _
      · exact hs
    cases hj with
    | str _ s => exact .pure (((hparams.after _).before _).append (htext (.const m s)))
    | text hs => exact .pure (((hparams.after _).before _).append (htext hs))
    | _ => exact .fault _

theorem agreed_spread (place : Place) : AgreedText m fun c => spread place (l c) :=
  agreed_operand hbelow h "argument" place .assign fun _ ht => .pure (ht.after _)

theorem agreed_defaulted (place : Place) : AgreedText m fun c => Printable.defaulted place (l c) :=
  agreed_operand hbelow h "left" place .call fun _ hleft => agreed_operand hbelow h "right" place .assign fun _ hright =>
    .pure ((hleft.before _).append hright)

theorem agreed_assignment (place : Place) : AgreedText m fun c => assignment place (l c) := by
  refine (h.require "left").bind fun _ hleft => (hleft.layer.hasTypeIn (readable_printable m d) _).known fun pattern => ?_
  refine (agreed_expressionText hbelow place (if pattern = true then .primary else .call) hleft).bind fun _ htarget => ?_
  refine (agreed_textOf "operator" h).bind fun _ hop => agreed_operand hbelow h "right" place .assign fun _ hright => ?_
  exact .pure ((((htarget.before _).append hop).before _).append hright)

theorem agreed_sequence (place : Place) : AgreedText m fun c => sequence place (l c) := by
  refine (h.require "expressions").bind fun _ hx => (hx.layer.elements (readable_printable m d)).bind fun _ hxs => ?_
  exact agreed_expressions hbelow place hxs

theorem agreed_conditional (place : Place) : AgreedText m fun c => conditional place (l c) :=
  agreed_operand hbelow h "test" place _ fun _ htest => agreed_operand hbelow h "consequent" place .assign fun _ hyes =>
    agreed_operand hbelow h "alternate" place .assign fun _ hno =>
      .pure ((((htest.before _).append hyes).before _).append hno)

/-- A binary expression, once its operator is known. -/
theorem agreed_binaryOf (place : Place) (operator : Json) : Agreed (Fragment.Numbered m) (fun c => do
    let precedence ← operatorPrecedence operator
    let power := operator.string? == some "**"
    let left ← (← (l c).require "left").expression place (if power then .postfixOp else precedence)
    let right ← (← (l c).require "right").expression place (if power then precedence else precedence + 1)
    let operator ← asText operator
    let text := (← asText left) ++ " " ++ operator ++ " " ++ (← asText right)
    if operator == "in" && place.inHead then return fragmentWith .primary ("(" ++ text ++ ")")
    else return fragmentWith precedence text) := by
  refine (Agreed.same _).known fun precedence => ?_
  refine (h.require "left").bind fun _ hleft => (agreed_expression hbelow place _ hleft).bind fun _ hleft => ?_
  refine (h.require "right").bind fun _ hright => (agreed_expression hbelow place _ hright).bind fun _ hright => ?_
  refine (Agreed.same _).known fun op => hleft.asText.bind fun _ hleft => hright.asText.bind fun _ hright => ?_
  have htext := (((hleft.before " ").before op).before " ").append hright
  exact .ite (fun _ => .pure (Fragment.numbered ((htext.after _).before _) _)) fun _ => .pure (Fragment.numbered htext _)

theorem agreed_binary (place : Place) : Agreed (Fragment.Numbered m) fun c => binary place (l c) := by
  refine (h.require "operator").bind fun x hx => ?_
  have hoperator : Json.Numbered m false fun c => (x c).source := hx.source
  generalize hop : (fun c => (x c).source) = op at hoperator
  have hop (c : Nat) : (x c).source = op c := congrFun hop c
  simp only [hop]
  cases hoperator with
  | arr => exact .fault _
  | obj => exact .fault _
  | _ => exact agreed_binaryOf hbelow h place _

theorem agreed_unary (place : Place) : AgreedText m fun c => unary place (l c) := by
  refine (h.require "operator").bind fun x hx => (h.require "argument").bind fun _ harg => ?_
  refine (agreed_expression hbelow place .unary harg).bind fun arg harg => ?_
  have hoperator : Json.Numbered m false fun c => (x c).source := hx.source
  generalize hop : (fun c => (x c).source) = op at hoperator
  have hop (c : Nat) : (x c).source = op c := congrFun hop c
  simp only [hop]
  cases hoperator with
  | str _ sign =>
    refine harg.asText.bind fun arg harg => ?_
    have hfirst (c : Nat) : (arg c).toList.take 1 = (arg 0).toList.take 1 := by
      rw [List.take_one, List.take_one, harg.chars.head? c]
    simp only [hfirst]
    exact .ite (fun _ => .pure (harg.after _)) fun _ => .pure (harg.after _)
  | _ => exact .fault _

theorem agreed_yield (place : Place) : AgreedText m fun c => yield place (l c) := by
  have hread := readable_printable m d
  refine (h.flag hread "delegate").known fun _ => (h.optional hread "argument").bind fun o ho => ?_
  cases ho with
  | none => exact .pure (.const _ _)
  | some hx => exact (agreed_expressionText hbelow place .assign hx).bind fun _ ht => .pure (ht.after _)

theorem agreed_update (place : Place) : Agreed (Fragment.Numbered m) fun c => update place (l c) := by
  refine (h.require "argument").bind fun _ harg => (agreed_expression hbelow place .postfixOp harg).bind fun _ harg => ?_
  refine (h.flag (readable_printable m d) "prefix").known fun _ => (h.require "operator").bind fun _ hop => ?_
  refine hop.source.asText.bind fun _ hop => harg.asText.bind fun _ harg => ?_
  exact .ite (fun _ => .pure (Fragment.numbered (hop.append harg) _)) fun _ => .pure (Fragment.numbered (harg.append hop) _)

theorem agreed_arguments (place : Place) : AgreedText m fun c => arguments place (l c) := by
  refine (h.elementsOf (readable_printable m d) "arguments" rfl).bind fun _ hxs => ?_
  refine (Agreed.mapM hxs fun _ hp => agreed_expression hbelow place .assign hp).bind fun _ hparts => ?_
  exact (agreed_joined hparts).bind fun _ ht => .pure ((ht.after _).before _)

theorem agreed_call (place : Place) : AgreedText m fun c => call place (l c) := by
  refine (h.require "callee").bind fun _ hx => (agreed_expression hbelow place .call hx).bind fun _ hcallee => ?_
  exact (agreed_arguments hbelow h place).bind fun _ hargs => hcallee.asText.bind fun _ ht => .pure (ht.append hargs)

theorem agreed_construct (place : Place) : AgreedText m fun c => construct place (l c) := by
  have hrest (callee : Nat → String) (hcallee : NumberedText m callee) : AgreedText m (fun c => do
      return "new " ++ callee c ++ (← arguments place (l c))) :=
    (agreed_arguments hbelow h place).bind fun _ hargs => .pure ((hcallee.after _).append hargs)
  refine (h.require "callee").bind fun _ hx => .test (hbelow hx).callInside ?_ ?_
  · exact (agreed_expressionText hbelow place .sequence hx).bind fun _ ht => hrest _ ((ht.after _).before _)
  · exact (agreed_expressionText hbelow place .member hx).bind fun _ ht => hrest _ ht

omit hbelow in
theorem agreed_isBareNumber {text : Nat → Json} (htext : Json.Numbered m true text) :
    Agreed Constant fun c => isBareNumber (l c) (text c) := by
  have hread := readable_printable m d
  have hdigit {s : Nat → String} (hs : NumberedText m s) :
      Agreed Constant fun c => (pure (((s c).toList.head?.map isDigit).getD false) : Except Fault Bool) :=
    .pure ⟨((s 0).toList.head?.map isDigit).getD false, funext fun c => by rw [hs.chars.head? c]⟩
  refine (h.hasType hread "Literal").known fun _ => .ite (fun _ => .pure (constant _)) fun _ => (h.optional hread "value").bind fun o ho => ?_
  cases ho with
  | none => exact .pure (constant _)
  | @some value hvalue =>
    have hsource : Json.Numbered m true fun c => (value c).source := hvalue.source
    generalize hv : (fun c => (value c).source) = v at hsource
    have hv (c : Nat) : (value c).source = v c := congrFun hv c
    simp only [Option.map_some, hv]
    -- only the text of a number is looked at
    cases hsource with
    | int =>
      cases htext with
      | str _ s => exact .same _
      | text hs => exact hdigit hs
      | _ => exact .fault _
    | float =>
      cases htext with
      | str _ s => exact .same _
      | text hs => exact hdigit hs
      | _ => exact .fault _
    | _ => exact .pure (constant _)

theorem agreed_memberAccess (place : Place) : AgreedText m fun c => memberAccess place (l c) := by
  refine (h.require "object").bind fun _ hobject => (agreed_expression hbelow place .call hobject).bind fun _ htext => ?_
  refine (agreed_isBareNumber hobject.layer htext).known fun bare => htext.asText.bind fun text ht => ?_
  have ht : NumberedText m fun c => if bare = true then "(" ++ text c ++ ")" else text c := by
    split
    · exact (ht.after _).before _
    · exact ht
  refine .test (h.flag (readable_printable m d) "computed") ?_ ?_
  · exact agreed_operand hbelow h "property" place .sequence fun _ hp => .pure (((ht.before _).append hp).before _)
  · exact (agreed_nameOf "property" h).bind fun _ hp => .pure ((ht.before _).append hp)

theorem agreed_fragmentOf (type : String) (place : Place) : Agreed (Fragment.Numbered m) fun c => fragmentOf type place (l c) := by
  unfold fragmentOf
  split
  · exact (h.require "name").bind fun _ hx => .pure ⟨hx.source, constant _⟩
  · exact .pure (Fragment.numbered (.const _ _) _)
  · exact .pure (Fragment.numbered (.const _ _) _)
  · refine (agreed_nameOf "meta" h).bind fun _ hm => (agreed_nameOf "property" h).bind fun _ hp => ?_
    exact .pure (Fragment.numbered ((hm.before _).append hp) _)
  · exact (agreed_literal h).bind fun _ ht => .pure ⟨ht, constant _⟩
  · exact AgreedText.fragment (agreed_template hbelow h place) _
  · refine (h.require "tag").bind fun _ hx => (agreed_expression hbelow place .member hx).bind fun _ htag => ?_
    refine (h.require "quasi").bind fun _ hx => (agreed_template hbelow hx.layer place).bind fun _ hquasi => ?_
    exact htag.asText.bind fun _ ht => .pure (Fragment.numbered (ht.append hquasi) _)
  · exact AgreedText.fragment (agreed_array hbelow h place) _
  · exact AgreedText.fragment (agreed_array hbelow h place) _
  · exact AgreedText.fragment (agreed_object hbelow h place) _
  · exact AgreedText.fragment (agreed_object hbelow h place) _
  · exact AgreedText.fragment (agreed_function hbelow h place) _
  · exact AgreedText.fragment (agreed_classText hbelow h place) _
  · exact AgreedText.fragment (agreed_arrow hbelow h place) _
  · exact AgreedText.fragment (agreed_spread hbelow h place) _
  · exact AgreedText.fragment (agreed_spread hbelow h place) _
  · exact AgreedText.fragment (agreed_defaulted hbelow h place) _
  · exact AgreedText.fragment (agreed_assignment hbelow h place) _
  · exact AgreedText.fragment (agreed_sequence hbelow h place) _
  · exact AgreedText.fragment (agreed_conditional hbelow h place) _
  · exact agreed_binary hbelow h place
  · exact agreed_binary hbelow h place
  · exact AgreedText.fragment (agreed_unary hbelow h place) _
  · exact agreed_operand hbelow h "argument" place .unary fun _ ht => .pure (Fragment.numbered (ht.after _) _)
  · exact AgreedText.fragment (agreed_yield hbelow h place) _
  · exact agreed_update hbelow h place
  · exact AgreedText.fragment (agreed_call hbelow h place) _
  · exact AgreedText.fragment (agreed_construct hbelow h place) _
  · exact AgreedText.fragment (agreed_memberAccess hbelow h place) _
  · exact .fault _

/-! ## Statements -/

omit hbelow in
theorem agreed_directive {content : Nat → Printable} (hcontent : NumberedPrintable m d false content) :
    AgreedText m fun c => directive (l c) (content c) := by
  have hliteral : AgreedText m fun c => (pure (literalText (content c).source ++ ";") : Except Fault String) :=
    .pure (hcontent.source.literalText.before _)
  refine (h.require "expression").bind fun _ hx => (hx.layer.optional (readable_printable m d) "raw").bind fun o ho => ?_
  cases ho with
  | none => exact hliteral
  | some hraw =>
    obtain ⟨b, hb⟩ := hraw.layer.truthy.eq
    simp only [hb]
    exact .ite (fun _ => hraw.source.asText.bind fun _ ht => .pure (ht.before _)) fun _ => hliteral

/-- An expression as a statement that is no directive. -/
theorem agreed_plainStatement (place : Place) : AgreedText m (fun c => do
    match ← (← (l c).require "expression").expression place .sequence with
    | .str text => return (if Printable.startsAmbiguously text then "(" ++ text ++ ")" else text) ++ ";"
    | _ => .error .unsupported) := by
  refine (h.require "expression").bind fun _ hx => (agreed_expression hbelow place .sequence hx).bind fun j hj => ?_
  have htext {s : Nat → String} (hs : NumberedText m s) : NumberedText m fun c =>
      (if Printable.startsAmbiguously (s c) then "(" ++ s c ++ ")" else s c) ++ ";" := by
    simp only [hs.startsAmbiguously]
    split
    · exact ((hs.after _).before _).before _
    · exact hs.before _
  cases hj with
  | str _ s => exact .pure (htext (.const m s))
  | text hs => exact .pure (htext hs)
  | _ => exact .fault _

theorem agreed_expressionStatement (place : Place) : AgreedText m fun c => expressionStatement place (l c) := by
  have hplain := agreed_plainStatement hbelow h place
  refine (h.optional (readable_printable m d) "directive").bind fun o ho => ?_
  cases ho with
  | none => exact hplain
  | some hcontent =>
    obtain ⟨b, hb⟩ := hcontent.layer.truthy.eq
    simp only [Option.filter, hb]
    cases b with
    | true => exact agreed_directive h hcontent
    | false => exact hplain

omit hbelow in
theorem agreed_jump (word : String) : AgreedText m fun c => jump word (l c) := by
  refine (h.optional (readable_printable m d) "label").bind fun o ho => ?_
  cases ho with
  | none => exact .pure (.const _ _)
  | some hlabel =>
    obtain ⟨b, hb⟩ := hlabel.layer.truthy.eq
    simp only [Option.filter, hb]
    cases b with
    | true => exact (agreed_textOf "name" hlabel.layer).bind fun _ ht => .pure ((ht.after _).before _)
    | false => exact .pure (.const _ _)

theorem agreed_branch (place : Place) : AgreedText m fun c => branch place (l c) := by
  have hread := readable_printable m d
  refine (h.require "consequent").bind fun consequent hcons => (h.optional hread "alternate").bind fun o ho => ?_
  cases ho with
  | none =>
    refine agreed_operand hbelow h "test" place .sequence fun _ htest => (agreed_nested hbelow place hcons).bind fun _ hyes => ?_
    exact .pure (((htest.after _).before _).append hyes)
  | @some alternate halt =>
    have hno (head : Nat → String) (hhead : NumberedText m head) : AgreedText m (fun c => do
        let no ←
          if ← (layer (alternate c)).hasType "IfStatement" then pure (" " ++ (← (alternate c).statement place))
          else nested place (alternate c)
        return head c ++ "else" ++ no) := by
      refine .test (halt.layer.hasType hread _) ?_ ?_
      · exact ((hbelow halt).statement place).bind fun _ ht => .pure ((hhead.before _).append (ht.after _))
      · exact (agreed_nested hbelow place halt).bind fun _ ht => .pure ((hhead.before _).append ht)
    refine (hcons.layer.hasType hread _).known fun wrapped => agreed_operand hbelow h "test" place .sequence fun test htest => ?_
    have hyes (yes : Nat → String) (hyes : NumberedText m yes) : AgreedText m (fun c => do
        let gap := if wrapped || (← (layer (consequent c)).hasType "BlockStatement") then " " else "\n" ++ place.pad
        let no ←
          if ← (layer (alternate c)).hasType "IfStatement" then pure (" " ++ (← (alternate c).statement place))
          else nested place (alternate c)
        return "if (" ++ test c ++ ")" ++ yes c ++ gap ++ "else" ++ no) :=
      (hcons.layer.hasType hread _).known fun block => hno _ ((((htest.after _).before _).append hyes).before _)
    cases wrapped with
    | true => exact (agreed_inBraces hbelow place (.cons hcons .nil)).bind fun _ ht => hyes _ (ht.after _)
    | false => exact (agreed_nested hbelow place hcons).bind fun _ ht => hyes _ ht

/-- The first part of a counted loop's head, and an optional expression. -/
theorem agreed_loopInit (place : Place) : AgreedPart m fun c => loopInit place (l c) := by
  have hread := readable_printable m d
  refine (h.optional hread "init").bind fun o ho => ?_
  cases ho with
  | none => exact .pure (.str _ _)
  | some hinit =>
    refine .test (hinit.layer.hasType hread _) ?_ (agreed_expression hbelow place .sequence hinit)
    exact (agreed_declaration hbelow hinit.layer place).bind fun _ ht => .pure (.text ht)

theorem agreed_optionalExpression (place : Place) (key : String) : AgreedPart m fun c => optionalExpression place key (l c) := by
  refine (h.optional (readable_printable m d) key).bind fun o ho => ?_
  cases ho with
  | none => exact .pure (.str _ _)
  | some hx => exact agreed_expression hbelow place .sequence hx

/-- The statement in the body of a loop. -/
theorem agreed_nestedBody (place : Place) {head : Nat → String} (hhead : NumberedText m head) :
    AgreedText m (fun c => do return head c ++ (← nested place (← (l c).require "body"))) :=
  (h.require "body").bind fun _ hx => (agreed_nested hbelow place hx).bind fun _ ht => .pure (hhead.append ht)

theorem agreed_countedLoop (place : Place) : AgreedText m fun c => countedLoop place (l c) := by
  refine (agreed_loopInit hbelow h place.head).bind fun _ hinit => (agreed_optionalExpression hbelow h place "test").bind fun _ htest => ?_
  refine (agreed_optionalExpression hbelow h place "update").bind fun _ hupdate => ?_
  refine hinit.asText.bind fun _ hinit => htest.asText.bind fun _ htest => hupdate.asText.bind fun _ hupdate => ?_
  exact agreed_nestedBody hbelow h place (((((((hinit.after _).before _).append htest).before _).append hupdate).before _))

omit h in
theorem agreed_loopTarget (place : Place) (hp : NumberedPrintable m d loose p) : AgreedText m fun c => loopTarget place (p c) :=
  .test (hp.layer.hasType (readable_printable m d) _) (agreed_declaration hbelow hp.layer place) (agreed_expressionText hbelow place .call hp)

theorem agreed_eachLoop (word : String) (required : Precedence) (place : Place) :
    AgreedText m fun c => eachLoop word required place (l c) := by
  refine (h.require "left").bind fun _ hleft => (agreed_loopTarget hbelow place hleft).bind fun _ htarget => ?_
  refine agreed_operand hbelow h "right" place required fun _ hsource => ?_
  exact agreed_nestedBody hbelow h place ((((htarget.after _).before _).append hsource).before _)

theorem agreed_whileLoop (place : Place) : AgreedText m fun c => whileLoop place (l c) :=
  agreed_operand hbelow h "test" place .sequence fun _ htest => agreed_nestedBody hbelow h place ((htest.after _).before _)

theorem agreed_doLoop (place : Place) : AgreedText m fun c => doLoop place (l c) := by
  refine (h.require "body").bind fun _ hbody => (agreed_nested hbelow place hbody).bind fun _ ht => ?_
  refine (hbody.layer.hasType (readable_printable m d) _).known fun block => ?_
  refine agreed_operand hbelow h "test" place .sequence fun _ htest => .pure ?_
  exact ((((ht.after _).before _).before _).append htest).before _

theorem agreed_handler (place : Place) : AgreedText m fun c => handler place (l c) := by
  have hrest (param : Nat → String) (hparam : NumberedText m param) : AgreedText m (fun c => do
      return " catch" ++ param c ++ " " ++ (← body place (l c))) :=
    (agreed_body hbelow h place).bind fun _ hbody => .pure (((hparam.after _).before _).append hbody)
  refine (h.optional (readable_printable m d) "param").bind fun o ho => ?_
  cases ho with
  | none => exact hrest _ (.const _ _)
  | some hx => exact (agreed_expressionText hbelow place .assign hx).bind fun _ ht => hrest _ ((ht.after _).before _)

/-- A guarded block and its handler, with the block that ends them. -/
theorem agreed_finalized (place : Place) {head : Nat → String} (hhead : NumberedText m head) : AgreedText m (fun c => do
    let finalizer ← match ← (l c).optional "finalizer" with
      | some f => pure (" finally " ++ (← block place (layer f)))
      | none => pure ""
    return head c ++ finalizer) := by
  refine (h.optional (readable_printable m d) "finalizer").bind fun o ho => ?_
  cases ho with
  | none => exact .pure (hhead.append (.const _ _))
  | some hf => exact (agreed_block hbelow hf.layer place).bind fun _ ht => .pure (hhead.append (ht.after _))

theorem agreed_tryStatement (place : Place) : AgreedText m fun c => tryStatement place (l c) := by
  refine (h.require "block").bind fun _ hblock => (agreed_block hbelow hblock.layer place).bind fun guarded hguarded => ?_
  have hhead := hguarded.after "try "
  refine (h.optional (readable_printable m d) "handler").bind fun o ho => ?_
  cases ho with
  | none => exact agreed_finalized hbelow h place (hhead.append (.const _ _))
  | some hx => exact (agreed_handler hbelow hx.layer place).bind fun _ ht => agreed_finalized hbelow h place (hhead.append ht)

omit h in
theorem agreed_switchCase (place : Place) (hp : NumberedPrintable m d loose p) : AgreedText m fun c => switchCase place (p c) := by
  have hread := readable_printable m d
  have hrest (label : Nat → String) (hlabel : NumberedText m label) : AgreedText m (fun c => do
      let statements ← (← (layer (p c)).elementsOf "consequent").mapM fun s =>
        return "\n" ++ place.deeper.pad ++ (← s.statement place.deeper)
      return "\n" ++ place.pad ++ label c ++ String.join statements) := by
    refine (hp.layer.elementsOf hread "consequent" rfl).bind fun _ hs => ?_
    refine Agreed.bind (R := NumberedList (NumberedText m)) (.mapM hs fun p hp => ?_) fun _ hlines => .pure ?_
    · exact ((hbelow hp).statement place.deeper).bind fun _ ht => .pure (ht.after _)
    · exact (hlabel.after _).append (.join hlines)
  refine (hp.layer.optional hread "test").bind fun o ho => ?_
  cases ho with
  | none => exact hrest _ (.const _ _)
  | some hx => exact (agreed_expressionText hbelow place .sequence hx).bind fun _ ht => hrest _ ((ht.after _).before _)

theorem agreed_switchStatement (place : Place) : AgreedText m fun c => switchStatement place (l c) := by
  refine agreed_operand hbelow h "discriminant" place .sequence fun _ hd => ?_
  refine (h.elementsOf (readable_printable m d) "cases" rfl).bind fun _ hs => ?_
  refine Agreed.bind (R := NumberedList (NumberedText m)) (.mapM hs fun p hp => agreed_switchCase hbelow place.deeper hp)
    fun _ hcases => .pure ?_
  exact (((((hd.after _).before _).append (.join hcases)).before _).before _).before _

theorem agreed_statementOf (type : String) (place : Place) : AgreedText m fun c => statementOf type place (l c) := by
  unfold statementOf
  split
  · exact agreed_block hbelow h place
  · exact .pure (.const _ _)
  · exact .pure (.const _ _)
  · exact agreed_expressionStatement hbelow h place
  · exact (agreed_declaration hbelow h place).bind fun _ ht => .pure (ht.before _)
  · exact agreed_function hbelow h place
  · exact agreed_classText hbelow h place
  · refine (h.optional (readable_printable m d) "argument").bind fun o ho => ?_
    cases ho with
    | none => exact .pure (.const _ _)
    | some hx => exact (agreed_expressionText hbelow place .sequence hx).bind fun _ ht => .pure ((ht.after _).before _)
  · exact agreed_operand hbelow h "argument" place .sequence fun _ ht => .pure ((ht.after _).before _)
  · exact agreed_jump h "break"
  · exact agreed_jump h "continue"
  · refine (agreed_nameOf "label" h).bind fun _ hlabel => (h.require "body").bind fun _ hx => ?_
    exact ((hbelow hx).statement place).bind fun _ ht => .pure ((hlabel.before _).append ht)
  · exact agreed_branch hbelow h place
  · exact agreed_countedLoop hbelow h place
  · exact agreed_eachLoop hbelow h " in " .sequence place
  · exact agreed_eachLoop hbelow h " of " .assign place
  · exact agreed_whileLoop hbelow h place
  · exact agreed_doLoop hbelow h place
  · exact agreed_tryStatement hbelow h place
  · exact agreed_switchStatement hbelow h place
  · exact .fault _

/-- Whether a chain holds a call does not depend on the number. -/
theorem agreed_tagHasCall : Agreed Constant (fun c => do
    match ← (l c).optional "tag" with
    | some tag => tag.callInside
    | none => return false) := by
  refine (h.optional (readable_printable m d) "tag").bind fun o ho => ?_
  cases ho with
  | none => exact .pure (constant _)
  | some hx => exact (hbelow hx).callInside

theorem agreed_chainHasCall : Agreed Constant fun c => chainHasCall (l c) := by
  have hread := readable_printable m d
  have htag := agreed_tagHasCall hbelow h
  obtain ⟨b, hb⟩ := h.truthy.eq
  unfold chainHasCall
  simp only [hb]
  refine .ite (fun _ => .pure (constant _)) fun _ => (h.hasTypeIn hread _).known fun _ => .ite (fun _ => .pure (constant _)) fun _ => ?_
  refine .test (h.hasType hread _) (.pure (constant _)) ((h.optional hread "object").bind fun o ho => ?_)
  cases ho with
  | none => exact htag
  | some hx =>
    obtain ⟨b, hb⟩ := hx.layer.truthy.eq
    simp only [Option.filter, hb]
    cases b with
    | true => exact (hbelow hx).callInside
    | false => exact htag

end Rules

/-! ## Whole trees -/

theorem Forms.numbered_none (truthy : Bool) : Forms.Numbered m fun _ => Forms.none truthy where
  callInside := .same _
  statement _ := .fault _
  fragment _ := .fault _

/-- The type of a node does not depend on the number. -/
theorem agreed_type {l : Nat → Layer Printable} (h : Layer.Numbered m (NumberedPrintable m d) loose l) :
    Agreed Constant fun c => textOf "type" (l c) := by
  refine (h.require "type").bind fun x hx => ?_
  have htype : Json.Numbered m false fun c => (x c).source := hx.source
  generalize hj : (fun c => (x c).source) = j at htype
  have hj (c : Nat) : (x c).source = j c := congrFun hj c
  simp only [hj]
  cases htype with
  | str => exact .answer (constant _)
  | _ => exact .fault _

theorem numbered_forms (hbelow : NumberedBelow m d) {l : Nat → Layer Printable}
    (h : Layer.Numbered m (NumberedPrintable m d) loose l) : Forms.Numbered m fun c => forms (l c) := by
  obtain ⟨b, hb⟩ := h.truthy.eq
  have hnode : Forms.Numbered m fun c => {
      callInside := chainHasCall (l c)
      statement := fun place => do statementOf (← textOf "type" (l c)) place (l c)
      fragment := fun place => do fragmentOf (← textOf "type" (l c)) place (l c) } := {
    callInside := agreed_chainHasCall hbelow h
    statement place := (agreed_type h).known fun type => agreed_statementOf hbelow h type place
    fragment place := (agreed_type h).known fun type => agreed_fragmentOf hbelow h type place }
  cases h with
  | obj => exact hnode
  | _ =>
    simp only [forms, hb]
    exact Forms.numbered_none _

theorem numberedBelow (m d : Nat) : NumberedBelow m d := by
  intro loose p hp
  cases hp with
  | noted h => exact h.note_induction (Forms.numbered_none true) fun d hnote _ _ hl => numbered_forms hnote hl
  | string => exact Forms.numbered_none true

/-- Whole trees are printed alike. -/
theorem Json.Numbered.printNode {j : Nat → Json} (h : Json.Numbered m loose j) : AgreedPart m fun c => ScriptTrace.printNode (j c) := by
  have hbelow : NumberedBelow m (sizeOf (j 0) + 1) := numberedBelow m _
  have hp : NumberedPrintable m (sizeOf (j 0) + 1) loose fun c => (j c).annotate forms := .noted h (Nat.lt_succ_self _)
  have hl := hp.layer
  refine (hl.require "type").bind fun x hx => ?_
  have htype : Json.Numbered m false fun c => (x c).source := hx.source
  generalize hs : (fun c => (x c).source) = source at htype
  have hs (c : Nat) : (x c).source = source c := congrFun hs c
  simp only [hs]
  cases htype with
  | str _ type =>
    by_cases hprogram : type = "Program"
    · subst hprogram
      refine (hl.elementsOf (readable_printable m _) "body" rfl).bind fun _ hitems => ?_
      exact (Agreed.mapM hitems fun _ hp => (hbelow hp).statement .top).bind fun _ hlines => .pure (.text (.intercalate _ hlines))
    · refine Agreed.of_eq (r := fun c => if endsWith "Statement" type || endsWith "Declaration" type then
        Json.str <$> Printable.statement .top ((j c).annotate forms) else Printable.expression .top .sequence ((j c).annotate forms)) ?_ fun c => ?_
      · exact .ite (fun _ => ((hbelow hp).statement .top).map fun _ ht => Json.Numbered.text ht) fun _ => agreed_expression hbelow .top .sequence hp
      · split
        · next h => exact absurd (Json.str.inj h) hprogram
        · next h =>
          cases h
          split <;> rfl
        · next h => exact absurd rfl (h _)
  | _ => exact .fault _

/-- A condition is shown alike. -/
theorem Json.Numbered.conditionText {j : Nat → Json} (h : Json.Numbered m loose j) (code : Option String) :
    AgreedText m fun c => Node.conditionText (j c) code := by
  refine (h.sourceText code).known fun o => ?_
  cases o with
  | some text => exact .pure (.const _ _)
  | none =>
    refine h.printNode.bind fun _ ht => ?_
    cases ht with
    | str => exact .pure (.const _ _)
    | text ht => exact .pure ht.squeeze
    | _ => exact .fault _

end ScriptTrace
