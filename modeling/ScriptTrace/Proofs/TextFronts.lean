import ScriptTrace.Proofs.ComposedText
import ScriptTrace.Proofs.ExpressionPrinting
import ScriptTrace.Proofs.PrintingFaults

/-!
# What printed text begins with

The text of an expression begins with a word or a sign of its own, with a name, an operator or a literal, or with the
text of its first part, and then with a certain sign behind that.

* `openers` : the words and signs that expressions of a form begin with, whatever their parts are;
* `leadKey`, `Behind` : the part that comes first, and what is behind it;
* `FrontOf` : how the text of a node begins; `gives_frontOf` : that every printed text begins so.
-/

namespace ScriptTrace

open Printable

/-- What the text of an expression may begin with, whatever its parts are. -/
def openers : List String :=
  ["(", "[", "\x7b", "\x60", "...", "async (", "async function", "function", "class", "new ", "yield*"]

/-- The text begins with a word or sign of its own. -/
def OpensOwn (s : String) : Prop := ∃ w ∈ openers, ∃ t, s = w ++ t

/-- The field of a node that is printed first, where one is. -/
def leadKey (type : String) : Option String :=
  ofGroup type [(["TaggedTemplateExpression"], "tag"), (["MemberExpression"], "object"), (["CallExpression"], "callee"),
    (["BinaryExpression", "LogicalExpression", "AssignmentExpression", "AssignmentPattern"], "left"),
    (["ConditionalExpression"], "test"), (["UpdateExpression"], "argument"), (["ExpressionStatement"], "expression")]

/-- What comes right behind the first part of a node. -/
inductive Behind (fields : Fields Json) : String → String → Prop
  | template : Behind fields "TaggedTemplateExpression" "\x60"
  | index : (Json.field "computed" (.obj fields)).truthy = true → Behind fields "MemberExpression" "["
  | dot : Behind fields "MemberExpression" "."
  | call : Behind fields "CallExpression" "("
  | binary {type operator : String} : type ∈ ["BinaryExpression", "LogicalExpression"] →
    Fields.get? "operator" fields = some (.str operator) → (Precedence.binary? operator).isSome = true →
    Behind fields type (" " ++ operator ++ " ")
  | assignment {operator : String} : Fields.get? "operator" fields = some (.str operator) →
    Behind fields "AssignmentExpression" (" " ++ operator ++ " ")
  | default : Behind fields "AssignmentPattern" " = "
  | conditional : Behind fields "ConditionalExpression" " ? "
  | update {operator : String} : Fields.get? "operator" fields = some (.str operator) →
    Behind fields "UpdateExpression" operator

/-- The text is that of a part of the node. -/
def IsPartText (fields : Fields Json) (place : Place) (key s : String) : Prop :=
  ∃ v required, Fields.get? key fields = some v ∧ (printable v).expression place required = .ok (.str s)

/-- How the text of an expression node begins. -/
inductive FrontOf (type : String) (fields : Fields Json) (place : Place) : String → Prop
  | own {s : String} : OpensOwn s → FrontOf type fields place s
  | word {s : String} : s ∈ ["this", "super", "yield"] → FrontOf type fields place s
  | name {s : String} : type = "Identifier" → Fields.get? "name" fields = some (.str s) → FrontOf type fields place s
  | metaName {v : Json} {s t : String} : type = "MetaProperty" → Fields.get? "meta" fields = some v →
    v.get? "name" = some (.str s) → FrontOf type fields place (s ++ "." ++ t)
  | literal {s : String} : type = "Literal" → literal (printed fields) = .ok (.str s) → FrontOf type fields place s
  /-- An operator that is a word is set apart from what is behind it. -/
  | operator {sign t : String} : type ∈ ["UnaryExpression", "UpdateExpression"] →
    Fields.get? "operator" fields = some (.str sign) →
    (type = "UnaryExpression" → sign ≠ "" → sign.toList.all isLetter = true → ∃ u, t = " " ++ u) →
    FrontOf type fields place (sign ++ t)
  | operand {w s : String} : type ∈ ["AwaitExpression", "YieldExpression"] → w ∈ ["await ", "yield "] →
    IsPartText fields place "argument" s → FrontOf type fields place (w ++ s)
  | lead {key s sign t : String} : leadKey type = some key → IsPartText fields place key s → Behind fields type sign →
    FrontOf type fields place (s ++ (sign ++ t))
  | first {v w : Json} {vs : List Json} {s t : String} : type = "SequenceExpression" →
    Fields.get? "expressions" fields = some (.arr (v :: w :: vs)) → (printable v).expression place .assign = .ok (.str s) →
    FrontOf type fields place (s ++ (", " ++ t))
  /-- A sequence of less than two expressions, which there is no text of a program for. -/
  | short {s : String} : type = "SequenceExpression" →
    (∀ v w vs, Fields.get? "expressions" fields ≠ some (.arr (v :: w :: vs))) → FrontOf type fields place s

section Fronts

variable {fields : Fields Json} {type key : String} {place : Place} {l : Layer Printable}

/-! ## Reading the parts -/

theorem gives_then {α β : Type} {Q : β → Prop} {r : Except Fault α} {f : α → Except Fault β} (h : ∀ a, Gives (f a) Q) :
    Gives (r >>= f) Q := by
  cases r with
  | ok a => exact h a
  | error fault => trivial

/-- What is given is the result. -/
theorem gives_result {α : Type} (r : Except Fault α) : Gives r fun a => r = .ok a := by
  cases r with
  | ok a => rfl
  | error fault => trivial

theorem gives_str (j : Json) : Gives (asText j) fun s => j = .str s := by
  cases j with
  | str s => rfl
  | _ => trivial

theorem gives_found (key : String) :
    Gives ((printed fields).require key) fun p => ∃ v, Fields.get? key fields = some v ∧ p = printable v := by
  cases hv : Fields.get? key fields with
  | none =>
    rw [printed, Layer.require, Fields.get?_mapValues, hv]
    trivial
  | some v =>
    rw [require_printed hv]
    exact ⟨v, rfl, rfl⟩

/-- A field that may be missing or null. -/
theorem optional_field (fields : Fields Json) (key : String) :
    (printed fields).optional key = .ok (((Fields.get? key fields).filter fun v => !v.isNull).map printable) := by
  rw [printed, Layer.optional, Fields.get?_mapValues]
  cases Fields.get? key fields with
  | none => rfl
  | some v => cases v <;> rfl

theorem gives_optional (key : String) : Gives ((printed fields).optional key) fun o =>
    ∀ p, o = some p → ∃ v, Fields.get? key fields = some v ∧ p = printable v := by
  rw [optional_field]
  intro p hp
  obtain ⟨v, hv, rfl⟩ := Option.map_eq_some_iff.1 hp
  exact ⟨v, (Option.filter_eq_some_iff.1 hv).1, rfl⟩

theorem truthy_printable (v : Json) : (layer (printable v)).truthy = v.truthy := by
  rw [← truthy_plain]
  exact congrArg Json.truthy (plain_annotate forms v)

/-- A flag is whether the field counts as true. -/
theorem gives_flag (key : String) :
    Gives ((printed fields).flag key) fun b => (Json.field key (.obj fields)).truthy = b := by
  change (Json.field key (.obj fields)).truthy = _
  rw [Fields.get?_mapValues, Json.field, Json.get?]
  cases hv : Fields.get? key fields with
  | none => rfl
  | some v =>
    rw [Option.getD_some, ← truthy_printable, Option.map_some]
    cases hlayer : layer (printable v) <;> simp [Option.filter_some, hlayer, Layer.isNull, Layer.truthy]

/-- A directive is printed as one where its content is not empty. -/
theorem directive_printed (fields : Fields Json) : ∃ content, (printed fields).optional "directive" = .ok content ∧
    (content.filter fun d => (layer d).truthy).isSome = (Json.field "directive" (.obj fields)).truthy := by
  refine ⟨_, rfl, ?_⟩
  rw [Json.field, Json.get?, Fields.get?_mapValues]
  cases Fields.get? "directive" fields with
  | none => rfl
  | some v =>
    have hcounts : (!(layer (printable v)).isNull && (layer (printable v)).truthy) = (layer (printable v)).truthy := by
      cases layer (printable v) <;> rfl
    rw [Option.map_some, Option.getD_some, ← truthy_printable, Option.filter_filter, Option.filter_some, hcounts]
    cases (layer (printable v)).truthy <;> rfl

/-- A node that is found to have a type has it. -/
theorem gives_hasType (v : Json) (type : String) :
    Gives ((layer (printable v)).hasType type) fun b => b = true → v.type? = some type := by
  cases v with
  | obj inner =>
    rw [Json.layer_annotate_obj]
    refine (gives_found "type").bind fun p ⟨w, hw, hp⟩ => ends_pure.2 fun hstring => ?_
    subst hp
    cases w with
    | str t =>
      obtain rfl : t = type := by simpa [Json.layer_annotate_str, Layer.isString] using hstring
      rw [Json.type?, Fields.type?, hw]
      rfl
    | _ => cases hstring
  | _ => trivial

theorem gives_expressionText (v : Json) (required : Precedence) :
    Gives ((printable v).expressionText place required) fun s => (printable v).expression place required = .ok (.str s) :=
  (gives_result _).bind fun _ hj => (gives_str _).mono fun _ hs => hs ▸ hj

theorem gives_part (key : String) : Gives ((printed fields).require key) fun p =>
    ∀ required, Gives (p.expression place required) fun j => ∀ s, j = .str s → IsPartText fields place key s := by
  refine (gives_found key).mono fun p ⟨v, hv, hp⟩ required => (gives_result _).mono fun j hj s hs => ⟨v, required, hv, ?_⟩
  rw [← hp, ← hs]
  exact hj

theorem gives_partText (key : String) : Gives ((printed fields).require key) fun p =>
    ∀ required, Gives (p.expressionText place required) (IsPartText fields place key) :=
  (gives_part key).mono fun _ hp required => (hp required).bind fun _ hj => (gives_str _).mono fun s hs => hj s hs

theorem gives_source (key : String) :
    Gives ((printed fields).require key) fun p => Fields.get? key fields = some p.source :=
  (gives_found key).mono fun p ⟨v, hv, hp⟩ => by rw [hv, hp, Json.source_annotate]

theorem gives_sourceText (key : String) : Gives (textOf key (printed fields)) fun s => Fields.get? key fields = some (.str s) := by
  refine (gives_source key).bind fun p hp => (gives_str _).mono fun s hs => ?_
  rw [hp, hs]

theorem gives_namedText (key : String) :
    Gives (nameOf key (printed fields)) fun s => ∃ v, Fields.get? key fields = some v ∧ v.get? "name" = some (.str s) := by
  refine (gives_found key).bind fun p ⟨v, hv, hp⟩ => ?_
  subst hp
  cases v with
  | obj inner =>
    rw [Json.layer_annotate_obj]
    exact (gives_sourceText "name").mono fun s hs => ⟨_, hv, hs⟩
  | _ => trivial

/-! ## Expressions that begin with a word or a sign of their own -/

theorem OpensOwn.append {s : String} (h : OpensOwn s) (t : String) : OpensOwn (s ++ t) := by
  obtain ⟨w, hw, u, rfl⟩ := h
  exact ⟨w, hw, u ++ t, String.append_assoc ..⟩

theorem opensOwn (w t : String) (hw : w ∈ openers) : OpensOwn (w ++ t) := ⟨w, hw, t, rfl⟩

theorem gives_arguments_own : Gives (arguments place l) fun s => ∃ t, s = "(" ++ t := by
  unfold arguments
  refine gives_then fun _ => gives_then fun _ => gives_then fun s => ends_pure.2 ⟨s ++ ")", ?_⟩
  rw [String.append_assoc]

theorem gives_params_own : Gives (params place l) fun s => ∃ t, s = "(" ++ t := by
  unfold params
  refine gives_then fun _ => gives_then fun _ => gives_then fun s => ends_pure.2 ⟨s ++ ")", ?_⟩
  rw [String.append_assoc]

theorem gives_template_own : Gives (template place l) fun s => ∃ t, s = "\x60" ++ t := by
  unfold template
  refine gives_then fun _ => gives_then fun _ => gives_then fun s => ends_pure.2 ⟨s ++ "\x60", ?_⟩
  rw [String.append_assoc]

theorem gives_array_own : Gives (array place l) OpensOwn := by
  unfold array
  refine gives_then fun _ => gives_then fun items => gives_then fun text => ?_
  split
  all_goals exact ends_pure.2 ((opensOwn "[" text (by decide)).append _)

theorem gives_object_own : Gives (object place l) OpensOwn := by
  unfold object
  refine gives_then fun _ => gives_then fun _ => gives_then fun s => ends_pure.2 ?_
  exact (opensOwn "\x7b" s (by decide)).append _

theorem gives_function_own : Gives (function place l) OpensOwn := by
  unfold function
  refine gives_then fun async => gives_then fun star => gives_then fun id => ?_
  extract_lets rest
  have hrest (name : String) : Gives (rest name) OpensOwn := by
    refine gives_then fun _ => gives_then fun _ => ends_pure.2 ?_
    simp only [String.append_assoc]
    cases async with
    | false => exact opensOwn "function" _ (by decide)
    | true => exact opensOwn "async function" _ (by decide)
  cases id with
  | none => exact hrest ""
  | some id => exact gives_then fun name => hrest (" " ++ name)

theorem gives_classText_own : Gives (classText place l) OpensOwn := by
  unfold classText
  refine gives_then fun id => ?_
  extract_lets rest
  have hrest (name : String) : Gives (rest name) OpensOwn := by
    refine gives_then fun base => ?_
    extract_lets rest
    have hrest (base : String) : Gives (rest base) OpensOwn := by
      refine gives_then fun _ => gives_then fun members => ends_ite (fun _ => ends_pure.2 ?_) fun _ => gives_then fun _ =>
        ends_pure.2 ?_
      all_goals
        simp only [String.append_assoc]
        exact opensOwn "class" _ (by decide)
    cases base with
    | none => exact hrest ""
    | some base => exact gives_then fun text => hrest (" extends " ++ text)
  cases id with
  | none => exact hrest ""
  | some id => exact gives_then fun name => hrest (" " ++ name)

theorem gives_arrow_own : Gives (arrow place l) OpensOwn := by
  unfold arrow
  refine gives_then fun async => gives_params_own.bind fun ps ⟨inner, hps⟩ => gives_then fun body => gives_then fun _ => ?_
  have hopens (s : String) : OpensOwn ((if async then "async " else "") ++ ps ++ s) := by
    rw [hps, String.append_assoc, String.append_assoc]
    cases async with
    | false => exact opensOwn "(" _ (by decide)
    | true => exact opensOwn "async (" _ (by decide)
  refine ends_ite (fun _ => gives_then fun s => ends_pure.2 ?_) fun _ => gives_then fun j => ?_
  · rw [String.append_assoc]
    exact hopens _
  · split
    · refine ends_pure.2 ?_
      rw [String.append_assoc]
      exact hopens _
    · trivial

theorem gives_spread_own : Gives (spread place l) OpensOwn :=
  gives_then fun _ => gives_then fun s => ends_pure.2 (opensOwn "..." s (by decide))

theorem gives_construct_own : Gives (construct place l) OpensOwn := by
  unfold construct
  refine gives_then fun callee => ?_
  extract_lets rest
  have hrest (text : String) : Gives (rest text) OpensOwn := by
    refine gives_then fun _ => ends_pure.2 ?_
    exact (opensOwn "new " text (by decide)).append _
  exact gives_then fun _ => ends_ite (fun _ => gives_then fun s => hrest _) fun _ => gives_then hrest

/-! ## Expressions that begin with their first part -/

theorem frontOf_string {j : Json} {s : String} (h : FrontOf type fields place s) (hj : j = .str s) :
    ∀ t, j = .str t → FrontOf type fields place t := by
  rintro t rfl
  cases hj
  exact h

theorem gives_binary_front (htype : type ∈ ["BinaryExpression", "LogicalExpression"]) (hkey : leadKey type = some "left") :
    Gives (binary place (printed fields)) fun f => ∀ s, f.text = .str s → FrontOf type fields place s := by
  unfold binary
  refine (gives_source "operator").bind fun p hp => ?_
  extract_lets operator
  refine (gives_result _).bind fun precedence hprecedence => ?_
  extract_lets
  refine (gives_part "left").bind fun _ hleft => (hleft _).bind fun left hleft => gives_then fun _ => gives_then fun _ => ?_
  refine (gives_str _).bind fun sign hsign => (gives_str _).bind fun s hs => gives_then fun t => ?_
  refine ends_ite (fun _ => ends_pure.2 ?_) fun _ => ends_pure.2 ?_
  · refine frontOf_string (.own ?_) rfl
    exact (opensOwn "(" _ (by decide)).append _
  · have hoperator : Fields.get? "operator" fields = some (.str sign) := hp.trans (congrArg some hsign)
    have hknown : (Precedence.binary? sign).isSome = true := by
      rw [hsign, operatorPrecedence] at hprecedence
      split at hprecedence
      · next h => rw [h]; rfl
      · cases hprecedence
    have hfront : FrontOf type fields place (s ++ (" " ++ sign ++ " " ++ t)) :=
      .lead hkey (hleft s hs) (.binary htype hoperator hknown)
    refine frontOf_string hfront (congrArg Json.str ?_)
    simp only [String.append_assoc]

theorem gives_defaulted_front : Gives (Printable.defaulted place (printed fields)) (FrontOf "AssignmentPattern" fields place) := by
  unfold Printable.defaulted
  refine (gives_partText "left").bind fun p hp => (hp _).bind fun left hleft => gives_then fun _ => gives_then fun right => ?_
  refine ends_pure.2 ?_
  rw [String.append_assoc]
  exact .lead rfl hleft .default

theorem gives_assignment_front : Gives (assignment place (printed fields)) (FrontOf "AssignmentExpression" fields place) := by
  unfold assignment
  refine (gives_partText "left").bind fun p hp => gives_then fun _ => (hp _).bind fun target htarget => ?_
  refine (gives_sourceText "operator").bind fun operator hoperator => gives_then fun _ => gives_then fun value => ends_pure.2 ?_
  have hfront := FrontOf.lead (t := value) rfl htarget (.assignment hoperator)
  simpa only [String.append_assoc] using hfront

theorem gives_conditional_front :
    Gives (conditional place (printed fields)) (FrontOf "ConditionalExpression" fields place) := by
  unfold conditional
  refine (gives_partText "test").bind fun p hp => (hp _).bind fun test htest => gives_then fun _ => gives_then fun yes => ?_
  refine gives_then fun _ => gives_then fun no => ends_pure.2 ?_
  simp only [String.append_assoc]
  exact .lead rfl htest .conditional

theorem gives_sequence_front : Gives (Printable.sequence place (printed fields)) (FrontOf "SequenceExpression" fields place) := by
  by_cases hlong : ∃ v w vs, Fields.get? "expressions" fields = some (.arr (v :: w :: vs))
  · obtain ⟨v, w, vs, hitems⟩ := hlong
    unfold Printable.sequence
    rw [require_printed hitems, ok_bind, Json.layer_annotate_arr, Layer.elements_arr, ok_bind, List.map_cons, List.map_cons,
      List.mapM_cons, bind_assoc]
    refine (gives_result _).bind fun j hj => ?_
    rw [bind_assoc, List.mapM_cons, bind_assoc]
    refine gives_then fun k => ?_
    rw [bind_assoc]
    refine gives_then fun js => ?_
    simp only [pure_bind, joined, List.mapM_cons, bind_assoc]
    refine (gives_str _).bind fun s hs => gives_then fun t => gives_then fun ts => ends_pure.2 ?_
    rw [String.intercalate_cons_cons, String.append_assoc]
    exact .first rfl hitems (hs ▸ hj)
  · exact (gives_result _).mono fun s _ => .short rfl fun v w vs h => hlong ⟨v, w, vs, h⟩

theorem gives_unary_front : Gives (unary place (printed fields)) (FrontOf "UnaryExpression" fields place) := by
  unfold unary
  refine (gives_source "operator").bind fun p hp => ?_
  extract_lets operator
  refine gives_then fun _ => gives_then fun argument => ?_
  cases hsign : operator with
  | str sign =>
    have hoperator : Fields.get? "operator" fields = some (.str sign) := hp.trans (congrArg some hsign)
    refine gives_then fun s => ?_
    extract_lets isWord
    refine ends_ite (fun _ => ends_pure.2 ?_) fun hother => ends_pure.2 ?_
    · rw [String.append_assoc]
      exact .operator (by decide) hoperator fun _ _ _ => ⟨s, rfl⟩
    · refine .operator (by decide) hoperator fun _ hne hall => absurd ?_ hother
      simp [isWord, hne, hall]
  | _ => trivial

theorem gives_update_front :
    Gives (update place (printed fields)) fun f => ∀ s, f.text = .str s → FrontOf "UpdateExpression" fields place s := by
  unfold update
  refine (gives_part "argument").bind fun p hp => (hp _).bind fun argument hargument => gives_then fun before => ?_
  refine (gives_source "operator").bind fun p hp => ?_
  extract_lets operator
  refine (gives_str _).bind fun sign hsign => (gives_str _).bind fun s hs => ?_
  have hoperator : Fields.get? "operator" fields = some (.str sign) := hp.trans (congrArg some hsign)
  refine ends_ite (fun _ => ends_pure.2 (frontOf_string (.operator (by decide) hoperator nofun) rfl)) fun _ => ends_pure.2 ?_
  have hfront : FrontOf "UpdateExpression" fields place (s ++ (sign ++ "")) := .lead rfl (hargument s hs) (.update hoperator)
  rw [String.append_empty] at hfront
  exact frontOf_string hfront rfl

theorem gives_yield_front : Gives (yield place (printed fields)) (FrontOf "YieldExpression" fields place) := by
  unfold yield
  refine gives_then fun delegate => ?_
  extract_lets word
  have hword : word = "yield" ∨ word = "yield*" := by
    unfold word
    cases delegate <;> decide
  refine (gives_optional "argument").bind fun argument hargument => ?_
  cases argument with
  | none =>
    refine ends_pure.2 ?_
    rcases hword with hword | hword <;> rw [hword]
    · exact .word (by decide)
    · exact .own (opensOwn "yield*" "" (by decide))
  | some p =>
    obtain ⟨v, hv, rfl⟩ := hargument p rfl
    refine (gives_expressionText v .assign).bind fun s hs => ends_pure.2 ?_
    rcases hword with hword | hword <;> rw [hword]
    · exact .operand (by decide) (by decide) ⟨v, _, hv, hs⟩
    · rw [String.append_assoc]
      exact .own (opensOwn "yield*" _ (by decide))

theorem gives_call_front : Gives (call place (printed fields)) (FrontOf "CallExpression" fields place) := by
  unfold call
  refine (gives_part "callee").bind fun p hp => (hp _).bind fun callee hcallee => ?_
  refine gives_arguments_own.bind fun arguments ⟨t, ht⟩ => (gives_str _).bind fun s hs => ends_pure.2 ?_
  rw [ht]
  exact .lead rfl (hcallee s hs) .call

theorem gives_memberAccess_front :
    Gives (memberAccess place (printed fields)) (FrontOf "MemberExpression" fields place) := by
  unfold memberAccess
  refine (gives_part "object").bind fun object hp => (hp _).bind fun text htext => gives_then fun bare => ?_
  refine (gives_str _).bind fun s hs => ?_
  extract_lets text
  refine (gives_flag "computed").bind fun computed hcomputed => ?_
  have hfront {sign t : String} (hbehind : Behind fields "MemberExpression" sign) :
      FrontOf "MemberExpression" fields place (text ++ (sign ++ t)) := by
    unfold text
    split
    · refine .own ?_
      rw [String.append_assoc, String.append_assoc]
      exact opensOwn "(" _ (by decide)
    · exact .lead rfl (htext s hs) hbehind
  refine ends_ite (fun htrue => gives_then fun _ => gives_then fun index => ends_pure.2 ?_) fun _ =>
    gives_then fun name => ends_pure.2 ?_
  · rw [String.append_assoc, String.append_assoc]
    exact hfront (.index (hcomputed.trans htrue))
  · rw [String.append_assoc]
    exact hfront .dot

/-- The text of an expression node begins as its type tells. -/
theorem gives_frontOf :
    Gives (fragmentOf type place (printed fields)) fun f => ∀ s, f.text = .str s → FrontOf type fields place s := by
  have hown {act : Except Fault String} {precedence : Precedence} (hact : Gives act OpensOwn) :
      Gives (do return fragmentWith precedence (← act)) fun f => ∀ s, f.text = .str s → FrontOf type fields place s :=
    hact.bind fun _ hs => ends_pure.2 (frontOf_string (.own hs) rfl)
  have hfront {act : Except Fault String} {precedence : Precedence} (hact : Gives act (FrontOf type fields place)) :
      Gives (do return fragmentWith precedence (← act)) fun f => ∀ s, f.text = .str s → FrontOf type fields place s :=
    hact.bind fun _ hs => ends_pure.2 (frontOf_string hs rfl)
  unfold fragmentOf
  split
  · exact (gives_source "name").bind fun p hp => ends_pure.2 fun s hs => .name rfl (hp.trans (congrArg some hs))
  · exact ends_pure.2 (frontOf_string (.word (by decide)) rfl)
  · exact ends_pure.2 (frontOf_string (.word (by decide)) rfl)
  · refine (gives_namedText "meta").bind fun s ⟨v, hv, hname⟩ => gives_then fun t => ends_pure.2 ?_
    exact frontOf_string (.metaName rfl hv hname) rfl
  · exact (gives_result _).bind fun j hj => ends_pure.2 fun s hs => .literal rfl (hj.trans (congrArg Except.ok hs))
  · exact hown (gives_template_own.mono fun s ⟨t, ht⟩ => ht ▸ opensOwn "\x60" t (by decide))
  · refine (gives_part "tag").bind fun p hp => (hp _).bind fun tag htag => gives_then fun quasi => ?_
    refine gives_template_own.bind fun s ⟨t, ht⟩ => (gives_str _).bind fun text htext => ends_pure.2 ?_
    rw [ht]
    exact frontOf_string (.lead rfl (htag text htext) .template) rfl
  · exact hown gives_array_own
  · exact hown gives_array_own
  · exact hown gives_object_own
  · exact hown gives_object_own
  · exact hown gives_function_own
  · exact hown gives_classText_own
  · exact hown gives_arrow_own
  · exact hown gives_spread_own
  · exact hown gives_spread_own
  · exact hfront gives_defaulted_front
  · exact hfront gives_assignment_front
  · exact hfront gives_sequence_front
  · exact hfront gives_conditional_front
  · exact gives_binary_front (by decide) rfl
  · exact gives_binary_front (by decide) rfl
  · exact hfront gives_unary_front
  · refine (gives_partText "argument").bind fun p hp => (hp _).bind fun s hs => ends_pure.2 ?_
    exact frontOf_string (.operand (by decide) (by decide) hs) rfl
  · exact hfront gives_yield_front
  · exact gives_update_front
  · exact hfront gives_call_front
  · exact hown gives_construct_own
  · exact hfront gives_memberAccess_front
  · trivial

/-- The text of an object as an expression: it has a type, and begins as this type tells. -/
theorem gives_fragment_front : Gives ((printable (.obj fields)).fragment place) fun f =>
    ∀ s, f.text = .str s → ∃ type, Fields.type? fields = some type ∧ FrontOf type fields place s := by
  rw [fragment, Json.note_annotate, Json.note_obj]
  change Gives (textOf "type" (printed fields) >>= fun type => fragmentOf type place (printed fields)) _
  refine (gives_sourceText "type").bind fun type htype => gives_frontOf.mono fun f hf s hs => ⟨type, ?_, hf s hs⟩
  rw [Fields.type?, htype]
  rfl

end Fronts

end ScriptTrace
