import ScriptTrace.Proofs.LoopScopes
import ScriptTrace.Proofs.UntracedExpressions

/-!
# The texts of conditions

The condition of a branch, and the condition and the initial value of a counted loop, are recorded with a text: the part of the
program that the expression was read from, and else the printed form of what the expression has become. So the text is that of
the program's own expression, unless the source is not known and something in the expression calls for probes.

* `ConditionSite`, `conditions` : the branches and counted loops of a program;
* `ShownText`, `ConditionShown` : the text of an expression that has become another, and how the two differ;
* `ConditionRewritten` : what becomes of a branch or a counted loop, and the texts in its records;
* `Rewrites.conditions_match` : the branches and counted loops of a value, and those of what it becomes;
* `instrument_conditions` : the same of programs.
-/

namespace ScriptTrace

open Probe Rewriting Survey

/-- A branch or a counted loop of a program. -/
structure ConditionSite where
  /-- Whether the pass comes to it. -/
  visited : Bool
  fields : Fields Json

namespace Rewriting

def conditionTypes : List String := ["IfStatement", "ForStatement"]

/-- The branches and counted loops. The patterns of declarators are not visited. -/
def conditionSites : Survey Bool ConditionSite where
  own visited type fields := if type ∈ conditionTypes then [⟨visited, fields⟩] else []
  next visited type _ key := some (visited && !(type == "VariableDeclarator" && key == "id"))

/-- The branches and counted loops in a program. -/
def conditions (visited : Bool) (tree : Json) : List ConditionSite := conditionSites.collect visited tree

/-- The text by which an expression is shown once it has become another: the part of the source that it was read from where
both are known, and else the printed form of what it has become. -/
inductive ShownText (code : Option String) (e made : Json) : String → Prop
  | source (text : String) (a b : Int) (hcode : code = some text) (htext : text ≠ "")
      (hrange : e.field "range" = .arr [.int a, .int b]) : ShownText code e made (squeeze (Node.slice text (some a) (some b)))
  | printed (text : String) (hunknown : code = none ∨ code = some "" ∨ e.field "range" = .null)
      (hprinted : printNode made = .ok (.str text)) : ShownText code e made (squeeze text)

/-- Where the source is known, it is its part that is shown. -/
theorem ShownText.eq_slice {source text : String} {a b : Int} {v made : Json} (h : ShownText (some source) v made text)
    (hsource : source ≠ "") (hrange : v.field "range" = .arr [.int a, .int b]) :
    text = squeeze (Node.slice source (some a) (some b)) := by
  cases h with
  | source _ _ _ hcode _ hoffsets =>
    cases hcode
    rw [hrange] at hoffsets
    cases hoffsets
    rfl
  | printed _ hunknown =>
    rcases hunknown with hcode | hcode | hnull
    · cases hcode
    · exact absurd (Option.some.inj hcode) hsource
    · rw [hrange] at hnull
      cases hnull

/-- Where no place in the source is known, the printed form is shown. -/
theorem ShownText.eq_printed {code : Option String} {text shown : String} {v made : Json} (h : ShownText code v made shown)
    (hrange : v.field "range" = .null) (hprinted : printNode made = .ok (.str text)) : shown = squeeze text := by
  cases h with
  | source _ _ _ _ _ hoffsets =>
    rw [hrange] at hoffsets
    cases hoffsets
  | printed s _ hs =>
    cases hs.symm.trans hprinted
    rfl

/-- An expression that is shown has become another with the probes that it called for, and stays as it is exactly if it called
for none. -/
structure ConditionShown (code : Option String) (e made : Json) (text : String) : Prop where
  text : ShownText code e made text
  probes : ∀ kind, (probesOf made).count kind = (constructsOf e).count (false, kind)
  eq_iff : made = e ↔ ¬ IsTraced e

/-- What becomes of a branch or a counted loop. The condition of a branch is in a call that tells its text, that of a counted
loop is told at the head of the body, and an initial value that declares and assigns nothing is followed by a record of it. -/
structure ConditionRewritten (code : Option String) (l out : ConditionSite) : Prop where
  kept : l.visited = false → out.fields = l.fields
  type_eq : Fields.type? out.fields = Fields.type? l.fields
  branch : l.visited = true → Fields.type? l.fields = some "IfStatement" → ∃ line text made,
    Node.line (.obj l.fields) = .ok line ∧
    Fields.get? "test" out.fields = some (wrapped testName [.literal (.str text), .literal line] made) ∧
    ConditionShown code (Json.field "test" (.obj l.fields)) made text
  counted : l.visited = true → Fields.type? l.fields = some "ForStatement" →
    (Json.field "test" (.obj l.fields)).isNode = true → ∃ line text block rest,
      Node.line (.obj l.fields) = .ok line ∧ Fields.get? "body" out.fields = some (.obj block) ∧
      Fields.type? block = some "BlockStatement" ∧ Fields.get? "body" block = some (.arr (Probe.statement "test" line
        [("expression", .literal (.str text)), ("result", .literal (.bool true))] :: rest)) ∧
      ConditionShown code (Json.field "test" (.obj l.fields)) (Json.field "test" (.obj out.fields)) text
  initial : l.visited = true → Fields.type? l.fields = some "ForStatement" →
    (Json.field "init" (.obj l.fields)).isNode = true →
    (Json.field "init" (.obj l.fields)).type? ≠ some "VariableDeclaration" →
    writtenTargets (Json.field "init" (.obj l.fields)) = .ok [] → ∃ line text made,
      Node.line (.obj l.fields) = .ok line ∧ Fields.get? "init" out.fields =
        some (sequenceOf made (Probe.record "init" line [("expression", .literal (.str text))])) ∧
      ConditionShown code (Json.field "init" (.obj l.fields)) made text

end Rewriting

/-! ## The text of an expression -/

section Texts

variable {code : Option String} {classes : List Json} {up : Option Json} {type : String} {name : Json} {e made out : Fields Json}

/-- Where a node was read from is told by two offsets, or not at all. -/
theorem range_of_proper (hproper : (Json.obj e).Proper) (htype : Fields.type? e = some type) :
    Json.field "range" (.obj e) = .null ∨ ∃ a b, Json.field "range" (.obj e) = .arr [.int a, .int b] := by
  obtain ⟨slots, hshape⟩ := hproper.exists_shape htype
  have hfits := hproper.isNodeOf htype
  simp only [Grammar.isNodeOf, hshape, Bool.and_eq_true, List.all_eq_true] at hfits
  replace hfits := hfits.1.1 ("range", .range) (List.mem_append_right _ (by simp [Grammar.common]))
  rw [Json.field, Json.get?]
  rcases Json.fits_range hfits with h | h | ⟨a, b, h⟩ <;> rw [h]
  · exact .inl rfl
  · exact .inl rfl
  · exact .inr ⟨a, b, rfl⟩

/-- The text is taken from the place where the expression stood, which it keeps. -/
theorem RewrittenNode.shownText (hnode : RewrittenNode code classes up type name e made out) {text : String}
    (htext : Node.conditionText (.obj out) code = .ok text) : ShownText code (.obj e) (.obj out) text := by
  have hrange : Json.field "range" (.obj out) = Json.field "range" (.obj e) := by
    rw [Json.field, Json.get?, hnode.get?_kept (mode_position (.inr rfl)) (by decide)]
    rfl
  have hprinted (hunknown : code = none ∨ code = some "" ∨ Json.field "range" (.obj e) = .null)
      (hsource : Node.sourceText (.obj out) code = .ok none) : ShownText code (.obj e) (.obj out) text := by
    obtain ⟨s, hs, rfl⟩ : ∃ s, printNode (.obj out) = .ok (.str s) ∧ squeeze s = text := by
      rw [Node.conditionText, hsource, ok_bind] at htext
      cases hp : printNode (.obj out) with
      | error fault => rw [hp] at htext; cases htext
      | ok printed =>
        rw [hp] at htext
        cases printed with
        | str s => exact ⟨s, rfl, Except.ok.inj htext⟩
        | _ => cases htext
    exact .printed s hunknown hs
  have hisNode : (Json.obj out).isNode = true := Json.isNode_of_type? (j := .obj out) hnode.type?_out
  cases code with
  | none => exact hprinted (.inl rfl) rfl
  | some source =>
    by_cases hempty : source = ""
    · subst hempty
      exact hprinted (.inr (.inl rfl)) rfl
    rcases range_of_proper hnode.proper hnode.type with hnull | ⟨a, b, hoffsets⟩
    · refine hprinted (.inr (.inr hnull)) ?_
      rw [Node.sourceText, if_pos hisNode, hrange, hnull]
      · rfl
      · exact hempty
    · have hslice : Node.sourceText (.obj out) (some source) = .ok (some (Node.slice source (some a) (some b))) := by
        rw [Node.sourceText, if_pos hisNode, hrange, hoffsets]
        · rfl
        · exact hempty
      rw [Node.conditionText, hslice] at htext
      obtain rfl : squeeze (Node.slice source (some a) (some b)) = text := Except.ok.inj htext
      exact .source source a b rfl hempty hoffsets

/-- An expression that is shown, and what it has become. -/
theorem Rewrites.conditionShown {w : Json} {text : String} (hrw : Rewrites code .visited classes up (.obj e) w)
    (htype : Fields.type? e = some type) (hexpression : type ∈ Grammar.expressions) (hnames : (Json.obj e).Unreserved)
    (htext : Node.conditionText w code = .ok text) : ConditionShown code (.obj e) w text := by
  obtain ⟨name, made, out, rfl, hnode⟩ := hrw.exists_node htype
  have hinner : IsInner (.obj e) := by
    have hall : ∀ t ∈ Grammar.expressions, t ∉ outerTypes := by decide
    refine ⟨?_, nofun⟩
    rw [Json.isOneOf, show (Json.obj e).type? = some type from htype, Option.any_some]
    simpa using hall type hexpression
  exact ⟨hnode.shownText htext, hrw.count_inner hinner hnames, hrw.eq_iff hinner hnames⟩

end Texts

/-! ## Surroundings -/

section Surroundings

variable {visited : Bool} {type key : String} {fields : Fields Json} {v : Json}

theorem conditions_own_eq_nil (h : type ∉ conditionTypes) : conditionSites.own visited type fields = [] := if_neg h

theorem conditions_part (hkey : ¬ (key = "loc" ∨ key = "range")) (hid : ¬ (type = "VariableDeclarator" ∧ key = "id")) :
    conditionSites.part visited type fields key v = conditionSites.collect visited v := by
  have hdeclarator : (type == "VariableDeclarator" && key == "id") = false := by simpa using hid
  refine part_of_next hkey ?_ v
  simp only [conditionSites, hdeclarator, Bool.not_false, Bool.and_true]

/-- Records and guards have no conditions. -/
theorem conditions_plain : conditionSites.Plain false where
  own type hmem fields := by
    have hall : ∀ t ∈ flatTypes, t ∉ conditionTypes := by decide
    exact conditions_own_eq_nil (hall type hmem)
  next _ _ _ _ := rfl
  quiet _ _ _ := rfl
  records _ _ _ _ := rfl
  clauses _ := rfl
  inside _ _ _ _ := rfl

/-- Making a field ready adds no conditions. -/
theorem conditions_readyField : conditionSites.collect visited (readyField type key v) = conditionSites.collect visited v := by
  have hmade : ∀ t ∈ madeTypes, t ∉ conditionTypes ∧ t ≠ "VariableDeclarator" := by decide
  refine collect_readyField (fun t ht fields => conditions_own_eq_nil (hmade t ht).1) (fun t ht fields key => ?_) type key v
  simp [conditionSites, (hmade t ht).2]

/-- A body has the conditions it had before it was framed. -/
theorem conditions_body {code : Option String} {classes classes' : List Json} {up up' : Option Json} {k : FrameKind}
    {made block bmade plain : Fields Json} {bname w o : Json}
    (hframe : Rewriting.Frame code classes up type fields made k w o) (hbody : k ∈ [.iteration, .counted, .function])
    (hw : w = .obj plain) (hblock : RewrittenNode code classes' up' "BlockStatement" bname block bmade plain) :
    conditionSites.collect false o = conditionSites.collect false w := by
  obtain ⟨ss, ts, -, hitems, -⟩ := hblock.exists_weave "body" rfl
  generalize weave ss ts = items at hitems
  have hlist (items : List Json) : conditionSites.collect false (.obj (Fields.set "body" (.arr items) plain)) =
      conditionSites.collect false (.arr items) := (collect_rewrittenBlock items hblock rfl).trans rfl
  have hframed {f : List Json → List Json}
      (hf : conditionSites.collect false (.arr (f items)) = conditionSites.collect false (.arr items)) :
      conditionSites.collect false (onList "body" f w) = conditionSites.collect false w := by
    rw [hw, onList_obj f hitems, hlist, hf, ← hlist items, Fields.set_of_get? hitems]
  cases hframe with
  | uncounted => rfl
  | iteration line _ records hline hrecords =>
    have hrecord : conditionSites.collect false
        (Probe.statement "loop" line [("loopType", .literal (.str (Visit.loopTag type)))]) = [] :=
      (conditions_plain.collect_literals "loop" line [("loopType", .str (Visit.loopTag type))]).trans rfl
    have hsilent : conditionSites.collect false (.arr records) = [] := collect_silent fun r hr => by
      obtain ⟨kind, hkind, line, targets, htargets, rfl⟩ := exists_of_mem_iteration hrecords hr
      rw [localsStatement, conditions_plain.collect_expressionStatement, conditions_plain.collect_locals hkind line htargets]
    refine hframed ?_
    rw [← List.singleton_append, List.append_assoc, collect_append, collect_append, hsilent, collect_singleton rfl, hrecord]
    rfl
  | counted line _ text =>
    have hrecord : conditionSites.collect false (Probe.statement "test" line [("expression", .literal (.str text)),
        ("result", .literal (.bool true))]) = [] :=
      (conditions_plain.collect_literals "test" line [("expression", .str text), ("result", .bool true)]).trans rfl
    refine hframed ?_
    rw [← List.singleton_append, collect_append, collect_singleton rfl, hrecord]
    rfl
  | function line endLine name _ params =>
    have hthrown : conditionSites.collect false (thrown endLine name) = [] :=
      (conditions_plain.collect_literals "throw" endLine [("name", name)]).trans rfl
    refine hframed ?_
    rw [conditions_plain.collect_functionBody, conditions_plain.collect_called, conditions_plain.collect_handler, hthrown]
    conv_rhs => rw [← List.takeWhile_append_dropWhile (p := isDirective) (l := items), collect_append]
    exact congrArg (_ ++ ·) (List.append_nil _)
  | _ => simp at hbody

end Surroundings

/-! ## Conditions that are rewritten -/

section Conditions

variable {code : Option String} {classes : List Json} {up : Option Json} {type key : String} {name : Json}
  {fields made out : Fields Json}

/-- A condition that is not visited stays as it is. -/
theorem Rewriting.ConditionRewritten.of_kept {l : ConditionSite} (h : l.visited = false) : ConditionRewritten code l l := by
  have hnot : l.visited ≠ true := by
    rw [h]
    decide
  exact ⟨fun _ => rfl, rfl, fun hv => absurd hv hnot, fun hv => absurd hv hnot, fun hv => absurd hv hnot⟩

theorem conditions_kept (v : Json) : ∀ l ∈ conditionSites.collect false v, l.visited = false := by
  have hall : v.everyObject (fun _ => true) = true := Json.everyObject_of_forall (fun _ => rfl) v
  refine forall_collect (I := (· = false)) (Q := fun l : ConditionSite => l.visited = false)
    (fun c type fields key c' hc hnext => ?_) (fun c type fields hc _ _ l hl => ?_) false v rfl hall
  · cases hnext
    rw [hc]
    rfl
  · change l ∈ (if _ then _ else _) at hl
    split at hl
    · rw [List.mem_singleton.1 hl]
      exact hc
    · cases hl

/-- The fields with the expressions that are shown. -/
def shownFields : List (String × String) := [("IfStatement", "test"), ("ForStatement", "test"), ("ForStatement", "init")]

/-- An expression in such a field, and what becomes of it. -/
theorem RewrittenNode.exists_expression (hnode : RewrittenNode code classes up type name fields made out)
    (hshown : (type, key) ∈ shownFields) (hisNode : (Json.field key (.obj fields)).isNode = true)
    (hplain : key = "init" → (Json.field key (.obj fields)).type? ≠ some "VariableDeclaration")
    (hnames : (Json.obj fields).Unreserved) :
    ∃ w o, Fields.get? key made = some w ∧ Fields.get? key out = some o ∧
      Rewriting.Frame code classes up type fields made (frameKind type key) w o ∧
      ∀ text, Node.conditionText w code = .ok text → ConditionShown code (Json.field key (.obj fields)) w text := by
  obtain ⟨types, htypes, hfits, hmode, hkey⟩ : ∃ types,
      (∀ t ∈ types, key = "init" ∧ t = "VariableDeclaration" ∨ t ∈ Grammar.expressions) ∧
      ((Slot.node types).fits (Fields.get? key fields) = true ∨ (Slot.optional types).fits (Fields.get? key fields) = true) ∧
      mode type fields key = .visited ∧ key ∉ ["argument", "expression", "consequent", "alternate", "body"] := by
    have hfits (slots) (slot : Slot) (hshape : Grammar.shape type = some slots) (hslot : Fields.get? key slots = some slot) :
        slot.fits (Fields.get? key fields) = true := hnode.proper.fits key hnode.type hshape hslot
    simp only [shownFields, List.mem_cons, List.not_mem_nil, or_false, Prod.mk.injEq] at hshown
    rcases hshown with ⟨rfl, rfl⟩ | ⟨rfl, rfl⟩ | ⟨rfl, rfl⟩
    · exact ⟨_, fun _ h => .inr h, .inl (hfits _ _ rfl rfl), rfl, by decide⟩
    · exact ⟨_, fun _ h => .inr h, .inr (hfits _ _ rfl rfl), rfl, by decide⟩
    · exact ⟨_, fun _ h => (List.mem_cons.1 h).imp_left fun h => ⟨rfl, h⟩, .inr (hfits _ _ rfl rfl), rfl, by decide⟩
  obtain ⟨e, etype, he, hetype, hmem⟩ : ∃ e etype, Fields.get? key fields = some (.obj e) ∧ Fields.type? e = some etype ∧
      etype ∈ types := by
    rcases hfits with h | h
    · exact Json.fits_node h
    rcases Json.fits_optional h with h | h | h
    · rw [Json.field, Json.get?, h] at hisNode
      cases hisNode
    · rw [Json.field_of_get? h] at hisNode
      cases hisNode
    · exact h
  rw [Json.field_of_get? he] at hplain ⊢
  have hexpression : etype ∈ Grammar.expressions :=
    (htypes etype hmem).resolve_left fun h => hplain h.1 (hetype.trans (congrArg some h.2))
  simp only [List.mem_cons, List.not_mem_nil, or_false, not_or] at hkey
  have hcompleted : Fields.get? key (completed type fields) = some (.obj e) := (get?_completed_of_ne (by simp [hkey])).trans he
  obtain ⟨o, ho⟩ := Fields.exists_get?_of_names hnode.names_completed hcompleted
  obtain ⟨w, hprepared, hw, hframe⟩ := hnode.exists_made hcompleted ho
  have hrw := hnode.field _ _ w hprepared hw
  rw [readyField_eq_self (by simp [hkey]), hmode] at hrw
  exact ⟨w, o, hw, ho, hframe, fun text htext => hrw.conditionShown hetype hexpression (Json.everyObject_get? hnames he) htext⟩

/-- The condition of a branch. -/
theorem RewrittenNode.exists_branch_text (hnode : RewrittenNode code classes up "IfStatement" name fields made out)
    (hnames : (Json.obj fields).Unreserved) : ∃ line text test, Node.line (.obj fields) = .ok line ∧
      Fields.get? "test" out = some (wrapped testName [.literal (.str text), .literal line] test) ∧
      ConditionShown code (Json.field "test" (.obj fields)) test text := by
  obtain ⟨test, ttype, htest, httype, -⟩ := Json.fits_node (hnode.proper.fits "test" hnode.type rfl rfl)
  have hisNode : (Json.field "test" (.obj fields)).isNode = true :=
    Json.field_of_get? htest ▸ Json.isNode_of_type? (j := .obj test) httype
  obtain ⟨w, o, -, ho, hframe, hshown⟩ := hnode.exists_expression (by decide) hisNode (fun h => absurd h (by decide)) hnames
  rw [show frameKind "IfStatement" "test" = .test from rfl] at hframe
  cases hframe with
  | test line _ text hline htext => exact ⟨line, text, w, hline, ho, hshown text htext⟩

/-- The condition of a counted loop. -/
theorem RewrittenNode.exists_counted_text (hnode : RewrittenNode code classes up "ForStatement" name fields made out)
    (hnames : (Json.obj fields).Unreserved) (hisNode : (Json.field "test" (.obj fields)).isNode = true) :
    ∃ line text block rest, Node.line (.obj fields) = .ok line ∧ Fields.get? "body" out = some (.obj block) ∧
      Fields.type? block = some "BlockStatement" ∧ Fields.get? "body" block = some (.arr (Probe.statement "test" line
        [("expression", .literal (.str text)), ("result", .literal (.bool true))] :: rest)) ∧
      ConditionShown code (Json.field "test" (.obj fields)) (Json.field "test" (.obj out)) text := by
  obtain ⟨w, o, hw, ho, hsame, hshown⟩ := hnode.exists_expression (by decide) hisNode (fun h => absurd h (by decide)) hnames
  rw [show frameKind "ForStatement" "test" = .same from rfl, Rewriting.Frame.same_iff] at hsame
  -- the body begins with the record of what the condition has become
  obtain ⟨body, btype, hbody, hbtype, -⟩ := Json.fits_node (hnode.proper.fits "body" hnode.type rfl rfl)
  have hcompleted : Fields.get? "body" (completed "ForStatement" fields) = some (.obj body) :=
    (get?_completed_of_ne (by decide)).trans hbody
  obtain ⟨bo, hbo⟩ := Fields.exists_get?_of_names hnode.names_completed hcompleted
  obtain ⟨bw, hbprepared, hbw, hbframe⟩ := hnode.exists_made hcompleted hbo
  obtain ⟨-, block, hblock, hblocktype⟩ := exists_block_of_body hnode.proper hnode.type (by decide) hcompleted
  have hbrw := hnode.field _ _ bw hbprepared hbw
  rw [hblock, show mode "ForStatement" fields "body" = .visited from rfl] at hbrw
  obtain ⟨bname, bmade, plain, rfl, hbnode⟩ := hbrw.exists_node hblocktype
  obtain ⟨ss, ts, -, hts, -⟩ := hbnode.exists_weave "body" rfl
  rw [show frameKind "ForStatement" "body" = .counted from rfl] at hbframe
  cases hbframe with
  | uncounted _ hnot => rw [hnot] at hisNode; cases hisNode
  | counted line _ text hline _ htext =>
    rw [onList_obj _ hts] at hbo
    rw [Json.field_of_get? hw] at htext
    rw [Json.field_of_get? ho, hsame]
    exact ⟨line, text, _, weave ss ts, hline, hbo, (Fields.type?_set (by decide) _ _).trans hbnode.type?_out,
      by rw [Fields.get?_set, if_pos rfl], hshown text htext⟩

/-- The initial value of a counted loop that declares and assigns nothing. -/
theorem RewrittenNode.exists_initial_text (hnode : RewrittenNode code classes up "ForStatement" name fields made out)
    (hnames : (Json.obj fields).Unreserved) (hisNode : (Json.field "init" (.obj fields)).isNode = true)
    (hplain : (Json.field "init" (.obj fields)).type? ≠ some "VariableDeclaration")
    (hnothing : writtenTargets (Json.field "init" (.obj fields)) = .ok []) :
    ∃ line text init, Node.line (.obj fields) = .ok line ∧
      Fields.get? "init" out = some (sequenceOf init (Probe.record "init" line [("expression", .literal (.str text))])) ∧
      ConditionShown code (Json.field "init" (.obj fields)) init text := by
  obtain ⟨w, o, -, ho, hframe, hshown⟩ := hnode.exists_expression (by decide) hisNode (fun _ => hplain) hnames
  rw [show frameKind "ForStatement" "init" = .init from rfl] at hframe
  cases hframe with
  | noInit _ hnot => rw [hnot] at hisNode; cases hisNode
  | initNothing _ hdeclares => exact absurd hdeclares hplain
  | initDeclared _ _ _ _ _ hdeclares => exact absurd hdeclares hplain
  | initAssigned _ _ targets _ _ htargets hne =>
    rw [hnothing] at htargets
    exact absurd (Except.ok.inj htargets).symm hne
  | initShown line _ text hline _ _ htext => exact ⟨line, text, w, hline, ho, hshown text htext⟩

end Conditions

/-! ## Rewritten nodes -/

/-- A branch or a counted loop is rewritten as told if it has none of the names of the probes. -/
def ConditionMatches (code : Option String) (l out : ConditionSite) : Prop :=
  (Json.obj l.fields).Unreserved → ConditionRewritten code l out

/-- What is shown by induction of a value and what it becomes: the branches and counted loops match. -/
def ConditionsMatch (code : Option String) (m : Mode) (v w : Json) : Prop :=
  conditionSites.Matched (fun _ : Unit => true) (fun _ : Unit => false) (ConditionMatches code) (fun _ => False) m v w

section Fields

variable {code : Option String} {classes : List Json} {up : Option Json} {type key : String} {name : Json}
  {fields made out : Fields Json} (hnode : RewrittenNode code classes up type name fields made out)

include hnode

/-- A field that is kept has the conditions it had. -/
theorem RewrittenNode.conditions_kept {v o w : Json} (hv : Fields.get? key (completed type fields) = some v)
    (hmode : mode type fields key = .kept)
    (hrw : Rewrites code (mode type fields key) (classesAt classes type key name) (some (.obj fields)) (readyField type key v) w)
    (hframe : Rewriting.Frame code classes up type fields made (frameKind type key) w o)
    (hposition : ¬ (key = "loc" ∨ key = "range")) :
    Matches (ConditionMatches code) (fun _ => False) (conditionSites.part true type fields key v)
      (conditionSites.part false type out key o) := by
  obtain ⟨-, rfl⟩ := eq_of_kept hmode hrw hframe
  by_cases hid : type = "VariableDeclarator" ∧ key = "id"
  · obtain ⟨rfl, rfl⟩ := hid
    rw [part_of_next hposition rfl, part_of_next hposition rfl]
    exact .of_refl fun l hl _ => .of_kept (ScriptTrace.conditions_kept _ l hl)
  have hnothing (visited : Bool) : conditionSites.collect visited o = [] := by
    have hall : ∀ t ∈ leafTypes, t ∉ conditionTypes := by decide
    exact collect_kept (fun t ht leaf => conditions_own_eq_nil (hall t ht)) hnode.proper hnode.type hv hmode hposition hid
  rw [conditions_part hposition hid, conditions_part hposition hid, hnothing, hnothing]
  exact .nil

/-- Each field of a rewritten node has the conditions it had. -/
theorem RewrittenNode.conditions_field (ih : ∀ key v w, Fields.get? key (prepared type fields) = some v →
      Fields.get? key made = some w → ConditionsMatch code (mode type fields key) v w) {v o : Json}
    (hv : Fields.get? key (completed type fields) = some v) (ho : Fields.get? key out = some o) :
    Matches (ConditionMatches code) (fun _ => False) (conditionSites.part true type fields key v)
      (conditionSites.part false type out key o) := by
  by_cases hposition : key = "loc" ∨ key = "range"
  · rw [part, part, if_pos hposition, if_pos hposition]
    exact .nil
  obtain ⟨w, hprepared, hw, hframe⟩ := hnode.exists_made hv ho
  have hrw := hnode.field key _ w hprepared hw
  by_cases hkept : mode type fields key = .kept
  · exact hnode.conditions_kept hv hkept hrw hframe hposition
  have hid : ¬ (type = "VariableDeclarator" ∧ key = "id") := by
    rintro ⟨rfl, rfl⟩
    exact hkept rfl
  have hih := (ih key _ w hprepared hw hkept ()).1
  rw [conditions_readyField] at hih
  rw [conditions_part hposition hid, conditions_part hposition hid]
  by_cases hbody : frameKind type key ∈ [.iteration, .counted, .function]
  · obtain ⟨-, block, hready, hblocktype⟩ := exists_block_of_body hnode.proper hnode.type hbody hv
    rw [hready, mode_of_framed (by rintro h; rw [h] at hbody; simp at hbody)] at hrw
    obtain ⟨bname, bmade, plain, rfl, hblock⟩ := hrw.exists_node hblocktype
    rwa [conditions_body hframe hbody rfl hblock]
  · exact conditions_plain.matches_framed (fun _ => rfl) (fun _ => rfl) (fun _ _ _ _ _ => rfl) hnode hbody hv hrw hframe hih

/-- The condition that a rewritten node is. -/
theorem RewrittenNode.conditions_own : Matches (ConditionMatches code) (fun _ => False)
    (conditionSites.own true type fields) (conditionSites.own false type out) := by
  by_cases hcondition : type ∈ conditionTypes
  · have hown (visited : Bool) (node : Fields Json) : conditionSites.own visited type node = [⟨visited, node⟩] :=
      if_pos hcondition
    rw [hown, hown]
    refine .cons (fun hnames => ⟨nofun, hnode.type?_out.trans hnode.type.symm, fun _ htype => ?_, fun _ htype => ?_,
      fun _ htype => ?_⟩) .nil
    all_goals obtain rfl : type = _ := Option.some.inj (hnode.type.symm.trans htype)
    · exact hnode.exists_branch_text hnames
    · exact hnode.exists_counted_text hnames
    · exact hnode.exists_initial_text hnames
  · rw [conditions_own_eq_nil hcondition, conditions_own_eq_nil hcondition]
    exact .nil

end Fields

section Values

variable {code : Option String} {m : Mode} {classes : List Json} {up : Option Json}

/-- The branches and counted loops of a value match those of what it becomes. -/
theorem Rewrites.conditions_match {v w : Json} (h : Rewrites code m classes up v w) : ConditionsMatch code m v w :=
  matched_of_rewrites (fun _ => conditions_plain.collect_woven fun _ => rfl)
    (fun hnode ih _ => ⟨hnode.conditions_own, fun _ _ _ => hnode.conditions_field ih⟩) h

end Values

/-! ## Programs -/

theorem conditions_unreserved {tree : Json} {visited : Bool} (hnames : tree.Unreserved) :
    ∀ l ∈ conditions visited tree, (Json.obj l.fields).Unreserved := by
  refine forall_collect (I := fun _ => True) (Q := fun l : ConditionSite => (Json.obj l.fields).Unreserved)
    (fun _ _ _ _ _ _ _ => trivial) (fun c type fields _ _ hfields l hl => ?_) visited tree trivial hnames
  change l ∈ (if _ then _ else _) at hl
  split at hl
  · rw [List.mem_singleton.1 hl]
    exact hfields
  · cases hl

/-- The expressions of a program that are recorded with their text are shown as they were written, where the source is known
or they call for no probes. -/
theorem instrument_conditions {tree out : Json} {code : Option String} (h : tree.WellFormed) (hnames : tree.Unreserved)
    (hrun : instrument tree code = .ok out) :
    List.Forall₂ (ConditionRewritten code) (conditions true tree) (conditions false out) := by
  have hmatch := ((instrument_rewrites h hrun).conditions_match (by decide) ()).1.forall₂
  obtain ⟨hlen, hpairs⟩ := List.forall₂_iff_zip.1 hmatch
  exact List.forall₂_iff_zip.2 ⟨hlen, fun hp => hpairs hp (conditions_unreserved hnames _ (List.of_mem_zip hp).1)⟩

/-- A branch with one statement: `if (test) statement`. -/
def branchProgram (test statement : Json) : Json :=
  .obj [("type", .str "Program"), ("body", .arr [.obj [("type", .str "IfStatement"), ("test", test),
    ("consequent", statement), ("alternate", .null)]]), ("sourceType", .str "script")]

def emptyStatement : Json := .obj [("type", .str "EmptyStatement")]

/-- The source of a counted loop. -/
def loopSource : String := "for (f(); a   < b; ) ;"

/-- The loop, with the place in the source of its condition only. -/
def sourceLoop : Fields Json :=
  [("type", .str "ForStatement"),
    ("init", .obj [("type", .str "CallExpression"), ("callee", .ident (.str "f")), ("arguments", .arr [])]),
    ("test", .obj [("type", .str "BinaryExpression"), ("operator", .str "<"), ("left", .ident (.str "a")),
      ("right", .ident (.str "b")), ("range", .arr [.int 10, .int 17])]),
    ("update", .null), ("body", emptyStatement)]

def loopProgram : Json := .obj [("type", .str "Program"), ("body", .arr [.obj sourceLoop]), ("sourceType", .str "script")]

/-- A branch is told of, and so is a counted loop with its source: the condition as it stands there, the initial value as it
is printed. -/
theorem instrument_conditions_branch : (branchProgram (.ident (.str "a")) emptyStatement).WellFormed ∧
    (branchProgram (.ident (.str "a")) emptyStatement).Unreserved ∧
    (conditions true (branchProgram (.ident (.str "a")) emptyStatement)).map ConditionSite.visited = [true] ∧
    (∃ out, instrument (branchProgram (.ident (.str "a")) emptyStatement) none = .ok out ∧
      List.Forall₂ (ConditionRewritten none) (conditions true (branchProgram (.ident (.str "a")) emptyStatement))
        (conditions false out)) ∧
    loopProgram.WellFormed ∧ loopProgram.Unreserved ∧
    ∃ out site, instrument loopProgram (some loopSource) = .ok out ∧ conditions false out = [site] ∧
      (∃ line block rest, Fields.get? "body" site.fields = some (.obj block) ∧
        Fields.get? "body" block = some (.arr (Probe.statement "test" line
          [("expression", .literal (.str "a < b")), ("result", .literal (.bool true))] :: rest))) ∧
      ∃ line made, Fields.get? "init" site.fields =
        some (sequenceOf made (Probe.record "init" line [("expression", .literal (.str "f()"))])) := by
  have hwell : (branchProgram (.ident (.str "a")) emptyStatement).WellFormed := by decide +kernel
  have hnames : (branchProgram (.ident (.str "a")) emptyStatement).Unreserved := by decide +kernel
  have hok : (instrument (branchProgram (.ident (.str "a")) emptyStatement) none).isOk = true := by decide +kernel
  have hwell' : loopProgram.WellFormed := by decide +kernel
  have hnames' : loopProgram.Unreserved := by decide +kernel
  have hok' : (instrument loopProgram (some loopSource)).isOk = true := by decide +kernel
  refine ⟨hwell, hnames, by decide +kernel, ?_, hwell', hnames', ?_⟩
  · cases hrun : instrument (branchProgram (.ident (.str "a")) emptyStatement) none with
    | ok out => exact ⟨out, rfl, instrument_conditions hwell hnames hrun⟩
    | error refusal => rw [hrun] at hok; cases hok
  cases hrun : instrument loopProgram (some loopSource) with
  | error refusal => rw [hrun] at hok'; cases hok'
  | ok out =>
    have hsites : conditions true loopProgram = [⟨true, sourceLoop⟩] := rfl
    have hrewritten := instrument_conditions hwell' hnames' hrun
    rw [hsites] at hrewritten
    obtain ⟨site, _, hsite, hnone, hout⟩ := List.forall₂_cons_left_iff.1 hrewritten
    cases hnone
    obtain ⟨line, text, block, rest, -, hblock, -, hrecord, hshown⟩ := hsite.counted rfl rfl rfl
    obtain ⟨line', text', made, -, hinit, hshown'⟩ := hsite.initial rfl rfl rfl (by decide) rfl
    obtain rfl : text = "a < b" := (hshown.text.eq_slice (by decide) rfl).trans (by decide +kernel)
    have huntraced : constructsOf (Json.field "init" (.obj sourceLoop)) = [] := by decide +kernel
    have hmade : made = Json.field "init" (.obj sourceLoop) := hshown'.eq_iff.2 fun ⟨kind, hkind⟩ => by
      rw [huntraced] at hkind
      cases hkind
    have hprinted : printNode made = .ok (.str "f()") := by
      rw [hmade]
      rfl
    obtain rfl : text' = "f()" := (hshown'.text.eq_printed rfl hprinted).trans (by decide +kernel)
    exact ⟨out, site, rfl, hout, ⟨line, block, rest, hblock, hrecord⟩, line', made, hinit⟩

/-- A call of a method of the console: `console.log(1)`. -/
def consoleCall : Json :=
  .obj [("type", .str "CallExpression"), ("callee", .obj [("type", .str "MemberExpression"), ("object", .ident (.str "console")),
    ("property", .ident (.str "log")), ("computed", .bool false)]), ("arguments", .arr [.literal (.int 1)])]

/-- Without the source, a condition that prints is shown as the call of the runtime that it has become, and not as it was
written. -/
theorem branchText_instrumented :
    let printed : Json := .obj [("type", .str "CallExpression"), ("callee", .ident (.str printName)),
      ("arguments", .arr [.literal (.int (-1)), arrayOf (.arr [.literal (.int 1)])])]
    (branchProgram consoleCall emptyStatement).WellFormed ∧ (branchProgram consoleCall emptyStatement).Unreserved ∧
      instrument (branchProgram consoleCall emptyStatement) none = .ok (branchProgram
        (wrapped testName [.literal (.str "__print(-1, [1])"), .literal (.int (-1))] printed) (blockOf [emptyStatement])) ∧
      ¬ ShownText none consoleCall consoleCall "__print(-1, [1])" := by
  intro printed
  refine ⟨by decide +kernel, by decide +kernel, instrument_eq_ok (by decide +kernel), fun hshown => ?_⟩
  have hwritten : (printNode consoleCall).toOption.bind Json.string? = some "console.log(1)" := by decide +kernel
  generalize htext : "__print(-1, [1])" = text at hshown
  cases hshown with
  | source _ _ _ hcode => cases hcode
  | printed s _ hprinted =>
    rw [hprinted] at hwritten
    obtain rfl : s = "console.log(1)" := Option.some.inj hwritten
    exact absurd htext (by decide +kernel)

end ScriptTrace
