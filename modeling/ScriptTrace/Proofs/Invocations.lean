import ScriptTrace.Proofs.Erasure
import ScriptTrace.Proofs.Executions
import ScriptTrace.Proofs.Functions

/-!
# Every call is opened and closed once

What the body of an instrumented function records, whichever way it is left: first its call, then the events of
the calls made within it, and last its end. The end is recorded in three places, by a `return`, at the end of the body,
and by the handler around it, and a body that is executed comes to one of them.

A finalizer is executed after the record of a `return`, so what is proved is of bodies in which no `return` stands in
a `try` with a finalizer; `records_after_return` is what becomes of others.

* `Structured` : the statements that such bodies are built from;
* `Ends` : what a statement of a body records, by the way it ends;
* `Structured.ends` : rewritten statements end so;
* `instrument_invocations` : the functions of an instrumented program.
-/

namespace ScriptTrace

open Probe Rewriting

/-! ## Statements of a body -/

/-- Statements built from blocks, branches, returns, exceptions, expressions and `try`. The flag tells whether a return
may stand in them; none may in the block and the handler of a `try` with a finalizer. -/
inductive Structured : Bool → Json → Prop
  | expression {r : Bool} {s : Json} : s.type? = some "ExpressionStatement" → Structured r s
  | throw {r : Bool} {s : Json} : s.type? = some "ThrowStatement" → Structured r s
  | result {s : Json} : s.type? = some "ReturnStatement" → Structured true s
  | block {r : Bool} {s : Json} : s.type? = some "BlockStatement" → (∀ x ∈ (s.field "body").items, Structured r x) →
    Structured r s
  | branch {r : Bool} {s : Json} : s.type? = some "IfStatement" →
    (∀ key ∈ ["consequent", "alternate"], (s.field key).isNull = false → Structured r (s.field key)) → Structured r s
  | attempt {r : Bool} {s : Json} : s.type? = some "TryStatement" →
    Structured (r && (s.field "finalizer").isNull) (s.field "block") →
    ((s.field "handler").isNull = false → Structured (r && (s.field "finalizer").isNull) ((s.field "handler").field "body")) →
    ((s.field "finalizer").isNull = false → Structured r (s.field "finalizer")) → Structured r s

/-- What a statement records, by the way it ends: a return is recorded last, and what comes before is balanced. -/
def Ends (r : Bool) (events : List Event) (c : Completion) : Prop :=
  if c = .returned then
    r = true ∧ ∃ inner closing, events = inner ++ [closing] ∧ Balanced inner ∧ closing.kind = .ret
  else Balanced events

/-- Every execution of a statement records what it should. -/
def EndsWell (calls : List Event → Prop) (r : Bool) (s : Json) : Prop :=
  ∀ events c, Runs calls (.statement s) events c → Ends r events c

theorem Ends.of_balanced {r : Bool} {events : List Event} {c : Completion} (h : Balanced events) (hc : c ≠ .returned) :
    Ends r events c := by rwa [Ends, if_neg hc]

theorem Ends.balanced {r : Bool} {events : List Event} {c : Completion} (h : Ends r events c) (hc : c ≠ .returned) :
    Balanced events := by rwa [Ends, if_neg hc] at h

theorem Ends.append {r : Bool} {first second : List Event} {c : Completion} (hfirst : Balanced first) (h : Ends r second c) :
    Ends r (first ++ second) c := by
  by_cases hc : c = .returned
  · rw [Ends, if_pos hc] at h ⊢
    obtain ⟨hr, inner, closing, rfl, hinner, hkind⟩ := h
    exact ⟨hr, first ++ inner, closing, (List.append_assoc ..).symm, hfirst.append hinner, hkind⟩
  · exact .of_balanced (hfirst.append (h.balanced hc)) hc

theorem Ends.mono {r : Bool} {events : List Event} {c : Completion} {b : Bool} (h : Ends (r && b) events c) : Ends r events c := by
  by_cases hc : c = .returned
  · rw [Ends, if_pos hc, Bool.and_eq_true] at h
    rw [Ends, if_pos hc]
    exact ⟨h.1.1, h.2⟩
  · exact .of_balanced (h.balanced hc) hc

section Lists

variable {calls : List Event → Prop} {r : Bool} {ss : List Json} {events : List Event} {c : Completion}

/-- A list of statements records what its statements do, one after another. -/
theorem ends_list (h : ∀ s ∈ ss, EndsWell calls r s) (hrun : Runs calls (.list ss) events c) : Ends r events c := by
  induction ss generalizing events with
  | nil =>
    obtain ⟨rfl, rfl⟩ := hrun.list_nil
    exact .of_balanced .nil (by decide)
  | cons s ss ih =>
    obtain ⟨-, hs⟩ | ⟨first, second, rfl, hs, hss⟩ := hrun.list_cons
    · exact h s List.mem_cons_self _ _ hs
    · have hfirst := (h s List.mem_cons_self _ _ hs).balanced (by decide)
      exact .append hfirst (ih (fun s hs => h s (List.mem_cons_of_mem _ hs)) hss)

/-- An execution of a list ends in its first part, or comes to its second one. -/
theorem list_append {first : List Json} (hrun : Runs calls (.list (first ++ ss)) events c) :
    (c ≠ .normal ∧ Runs calls (.list first) events c) ∨ ∃ before after, events = before ++ after ∧
      Runs calls (.list first) before .normal ∧ Runs calls (.list ss) after c := by
  induction first generalizing events with
  | nil => exact .inr ⟨[], events, rfl, .done, hrun⟩
  | cons s first ih =>
    rw [List.cons_append] at hrun
    obtain ⟨hc, hs⟩ | ⟨before, after, rfl, hs, hrest⟩ := hrun.list_cons
    · exact .inl ⟨hc, .stop hs hc⟩
    · obtain ⟨hc, hfirst⟩ | ⟨middle, after, rfl, hfirst, hss⟩ := ih hrest
      · exact .inl ⟨hc, .next hs hfirst⟩
      · exact .inr ⟨before ++ middle, after, (List.append_assoc ..).symm, .next hs hfirst, hss⟩

/-- Statements of literals record nothing. -/
theorem list_literals {first : List Json} (hliterals : ∀ s ∈ first, s.type? = some "ExpressionStatement" ∧
    (s.field "expression").type? = some "Literal") (hrun : Runs calls (.list (first ++ ss)) events c) :
    Runs calls (.list ss) events c := by
  induction first generalizing events with
  | nil => exact hrun
  | cons s first ih =>
    obtain ⟨htype, hliteral⟩ := hliterals s List.mem_cons_self
    have hnothing {events c} (hs : Runs calls (.statement s) events c) : c = .normal ∧ events = [] :=
      (hs.statement_expression htype).value_literal hliteral
    rw [List.cons_append] at hrun
    obtain ⟨hc, hs⟩ | ⟨before, after, rfl, hs, hrest⟩ := hrun.list_cons
    · exact absurd (hnothing hs).1 hc
    · rw [(hnothing hs).2, List.nil_append]
      exact ih (fun s hs => hliterals s (List.mem_cons_of_mem _ hs)) hrest

/-- A return does not end normally, nor does a list that ends with one. -/
theorem list_getLast?_return (h : ss.getLast?.bind Json.type? = some "ReturnStatement")
    (hrun : Runs calls (.list ss) events c) : c ≠ .normal := by
  obtain ⟨s, hlast, htype⟩ := Option.bind_eq_some_iff.1 h
  obtain ⟨first, rfl⟩ := List.getLast?_eq_some_iff.1 hlast
  have hne {events c} (hs : Runs calls (.statement s) events c) : c ≠ .normal := by
    cases hs with
    | returnNothing | returnValue | returnThrown | throw | testThrown => decide
    | expression h' | block h' | branch h' | noBranch h' | attempted h' | finalized h' =>
      exact absurd (htype.symm.trans h') (by decide)
  obtain ⟨hc, -⟩ | ⟨_, _, -, -, hreturn⟩ := list_append hrun
  · exact hc
  · obtain ⟨hc, -⟩ | ⟨_, _, -, hs, -⟩ := hreturn.list_cons
    · exact hc
    · exact absurd rfl (hne hs)

end Lists

/-! ## Records -/

section Records

variable {calls : List Event → Prop} {events : List Event} {c : Completion}

/-- A record as a statement of its own. -/
theorem run_record {kind : String} {line : Json} {fields : List (String × Json)}
    (hrun : Runs calls (.statement (.expressionStatement (record kind line fields))) events c) :
    c = .normal ∧ ∃ event, events = [event] ∧ event.kind = .ofWord kind :=
  (hrun.statement_expression rfl).value_record

theorem endsWell_record (r : Bool) {kind : String} (hkind : kind ∈ ["assign", "declare", "class"]) (line : Json)
    (fields : List (String × Json)) : EndsWell calls r (.expressionStatement (record kind line fields)) := by
  intro events c hrun
  obtain ⟨rfl, event, rfl, hevent⟩ := run_record hrun
  refine .of_balanced (.singleton ?_) (by decide)
  have hall : ∀ kind ∈ ["assign", "declare", "class"], (Kind.ofWord kind != .call && !(Kind.ofWord kind).isClosing) = true := by
    decide
  rw [Event.informs, hevent]
  exact hall kind hkind

end Records

section Rewritten

variable {code : Option String} {classes : List Json} {up : Option Json} {calls : List Event → Prop}

/-- The statements of a woven list are the rewritten ones, and records. -/
theorem endsWell_weave {r : Bool} {ss ts : List Json} (h : ∀ p ∈ ss.zip ts, EndsWell calls r p.2) :
    ∀ t ∈ weave ss ts, EndsWell calls r t := by
  intro t ht
  obtain ⟨p, hp, ht⟩ := List.mem_flatMap.1 ht
  rcases List.mem_append.1 ht with ht | ht
  · obtain ⟨-, line, name, rfl⟩ := exists_of_mem_declares ht
    exact endsWell_record r (by simp) line _
  · rcases List.mem_cons.1 ht with rfl | ht
    · exact h p hp
    · obtain ⟨kind, hkind, line, targets, -, rfl⟩ := exists_of_mem_writesAfter ht
      refine endsWell_record r ?_ line _
      simp only [List.mem_cons, List.not_mem_nil, or_false] at hkind ⊢
      exact hkind.elim .inl fun h => .inr (.inl h)

/-! ## Expressions -/

/-- An expression of the program is one after it is rewritten. -/
theorem Rewrites.value_ends (hcalls : ∀ events, calls events → Balanced events) {v w : Json} (hproper : v.Proper)
    (hnames : v.Unreserved) (h : Rewrites code .visited classes up v w) {events : List Event} {c : Completion}
    (hrun : Runs calls (.value w) events c) : c ≠ .returned ∧ Balanced events := by
  by_cases hliteral : w.type? = some "Literal"
  · obtain ⟨rfl, rfl⟩ := hrun.value_literal hliteral
    exact ⟨by decide, .nil⟩
  · have hcaught : w.isIdentifier (· == caughtName) = false := by
      rw [h.isIdentifier_eq (by decide)]
      exact hnames.isIdentifier fun name hname => by rw [beq_iff_eq.1 hname]; rfl
    have hown : isOwn w = true := by
      have hcalls : ∀ name ∈ [recordName, returnName, testName], w.calls name = false := by
        intro name hname
        have hreserved : ∀ name ∈ [recordName, returnName, testName], name ≠ printName ∧ Json.isReserved name = true := by
          decide +kernel
        obtain ⟨hne, hreserved⟩ := hreserved name hname
        rw [calls_rewritten hne hproper h]
        exact hnames.calls hreserved
      rw [isOwn, hcaught, bne_iff_ne.2 hliteral, Bool.not_false, Bool.true_and, Bool.true_and, List.all_eq_true]
      exact fun name hname => by rw [hcalls name hname]; rfl
    obtain ⟨hc, hnested⟩ := hrun.value_own hown
    exact ⟨hc, hnested.balanced hcalls⟩

/-! ## Fields of a rewritten statement -/

section Fields

variable {type key : String} {name : Json} {fields made out : Fields Json}

/-- What becomes of a field that is there. -/
theorem RewrittenNode.exists_field (hnode : RewrittenNode code classes up type name fields made out)
    (hkey : key = "expression" → type ∉ functionTypes) {v : Json} (hv : Fields.get? key fields = some v) :
    ∃ w, Rewrites code (mode type fields key) (classesAt classes type key name) (some (.obj fields)) (readyField type key v) w ∧
      Rewriting.Frame code classes up type fields made (frameKind type key) w (Json.field key (.obj out)) := by
  have hcompleted := get?_completed hkey hv
  obtain ⟨o, ho⟩ := Fields.exists_get?_of_names hnode.names_completed hcompleted
  obtain ⟨w, hprepared, hw, hframe⟩ := hnode.exists_made hcompleted ho
  exact ⟨w, hnode.field key _ w hprepared hw, Json.field_of_get? ho ▸ hframe⟩

/-- A field that is missing stays missing. -/
theorem RewrittenNode.field_missing (hnode : RewrittenNode code classes up type name fields made out)
    (hkey : key ≠ "argument" ∧ key ≠ "expression") (hv : Fields.get? key fields = none) : Json.field key (.obj out) = .null := by
  have hnone : Fields.get? key out = none := by
    refine Fields.get?_eq_none.2 fun hmem => ?_
    rw [hnode.names_out, hnode.names_made] at hmem
    rcases names_prepared hmem with h | h | h
    · exact Fields.get?_eq_none.1 hv h
    · exact hkey.1 h
    · exact hkey.2 h
  rw [Json.field, Json.get?, hnone]
  rfl

/-- What becomes of a field of a statement all fields of which are visited, and none framed. -/
theorem RewrittenNode.field_visited (hnode : RewrittenNode code classes up type name fields made out) (key : String)
    (htype : type ∈ ["ExpressionStatement", "ThrowStatement", "TryStatement", "CatchClause"])
    (hkey : ¬ (key = "loc" ∨ key = "range")) :
    Rewrites code .visited classes (some (.obj fields)) (Json.field key (.obj fields)) (Json.field key (.obj out)) := by
  have hall : ∀ t ∈ ["ExpressionStatement", "ThrowStatement", "TryStatement", "CatchClause"], Unframed t ∧ t ∉ classTypes ∧
      t ∉ ["Program", "BlockStatement", "SwitchCase", "MethodDefinition", "Property"] ∧ ofGroup t visitTable = none := by decide
  obtain ⟨hun, hclass, hlists, hvisit⟩ := hall type htype
  have hmode : mode type fields key = .visited := by
    simp only [List.mem_cons, List.not_mem_nil, or_false, not_or] at hlists
    rw [mode, if_neg (by simp [hlists]), visitedFields, if_neg (by simp [hlists]), hvisit]
    exact if_neg hkey
  have hsame : frameKind type key = .same := hun.frameKind_eq key
  cases hv : Fields.get? key fields with
  | some v =>
    obtain ⟨w, hprepared, hw, ho⟩ := Unframed.exists_child hun hnode.names_made hnode.names_out hnode.frame hv
    have hrw := hnode.field key v w hprepared hw
    rwa [hmode, classesAt, if_neg fun h => hclass h.1, ← Json.field_of_get? hv, ← Json.field_of_get? ho] at hrw
  | none =>
    have hnone : Fields.get? key out = none := by
      rw [Fields.get?_eq_none, hnode.names_out, hnode.names_made, hun.prepared_eq]
      exact Fields.get?_eq_none.1 hv
    rw [Json.field, Json.field, Json.get?, Json.get?, hv, hnone]
    exact .value _ _ _ rfl (by rintro _ ⟨⟩)

end Fields

/-- Nothing is rewritten to nothing, and only nothing is. -/
theorem Rewrites.isNull_eq {v w : Json} (h : Rewrites code .visited classes up v w) : w.isNull = v.isNull := by
  cases h <;> rfl

/-! ## Statements -/

theorem exists_fields {type : String} {s : Json} (h : s.type? = some type) : ∃ fields, s = .obj fields := by
  cases s with
  | obj fields => exact ⟨fields, rfl⟩
  | _ => cases h

section Statements

variable {t : Json} {fields : Fields Json}

/-- The block of a list whose statements end well. -/
theorem endsWell_block {r : Bool} {block : Fields Json} (htype : Fields.type? block = some "BlockStatement")
    (h : Rewrites code .visited classes up (.obj block) t)
    (hitems : ∀ x ∈ (Json.field "body" (.obj block)).items, ∀ classes up t, Rewrites code .visited classes up x t →
      EndsWell calls r t) : EndsWell calls r t := by
  obtain ⟨name, made, out, rfl, hnode⟩ := h.exists_node htype
  obtain ⟨ss, ts, hss, hts, hstatements⟩ := hnode.exists_weave "body" rfl
  intro events c hrun
  have hlist := hrun.statement_block (s := .obj out) hnode.type?_out
  rw [Json.field_of_get? hts] at hlist
  refine ends_list (endsWell_weave fun p hp => ?_) hlist
  refine hitems p.1 ?_ classes none p.2 ((List.forall₂_iff_zip.1 hstatements).2 hp)
  rw [Json.field_of_get? hss]
  exact (List.of_mem_zip hp).1

/-- A branch becomes a block. -/
theorem endsWell_asBlock {r : Bool} {v : Json} (hproper : v.Proper) (hnode : v.isNode = true)
    (hv : ∀ classes up t, Rewrites code .visited classes up v t → EndsWell calls r t)
    (h : Rewrites code .visited classes up (asBlock v) t) : EndsWell calls r t := by
  obtain ⟨type, htype⟩ : ∃ type, v.type? = some type := by
    cases v with
    | obj fields => exact hproper.exists_type hnode
    | _ => cases hnode
  by_cases hblock : type = "BlockStatement"
  · have hsame : asBlock v = v := by rw [asBlock, htype, hblock, bne_self_eq_false, Bool.and_false]; rfl
    exact hv classes up t (hsame ▸ h)
  · have hmade : asBlock v = blockOf [v] := by
      rw [asBlock, hnode, htype, Bool.true_and]
      exact if_pos (by simpa using hblock)
    rw [hmade] at h
    obtain ⟨name, made, out, rfl, hrewritten⟩ := h.exists_node rfl
    refine endsWell_block rfl h fun x hx => ?_
    rw [List.mem_singleton.1 hx]
    exact hv

end Statements

section Nodes

variable {r : Bool} {name : Json} {fields made out : Fields Json} {events : List Event} {c : Completion}

/-- A branch of a rewritten `if` is one of the `if`, as a block. -/
theorem RewrittenNode.endsWell_branch (hnode : RewrittenNode code classes up "IfStatement" name fields made out) {key : String}
    (hkey : key ∈ ["consequent", "alternate"]) (hnull : (Json.field key (.obj out)).isNull = false)
    (hbranch : (Json.field key (.obj fields)).isNull = false → ∀ classes up t,
      Rewrites code .visited classes up (Json.field key (.obj fields)) t → EndsWell calls r t) :
    EndsWell calls r (Json.field key (.obj out)) := by
  have hrule : key ≠ "expression" ∧ (key ≠ "argument" ∧ key ≠ "expression") ∧ frameKind "IfStatement" key = .same ∧
      key ∈ ["test", "consequent", "alternate"] := by
    simp only [List.mem_cons, List.not_mem_nil, or_false] at hkey
    rcases hkey with rfl | rfl <;> decide
  obtain ⟨hexpression, hother, hsame, hvisited⟩ := hrule
  cases hv : Fields.get? key fields with
  | none =>
    rw [hnode.field_missing hother hv] at hnull
    cases hnull
  | some v =>
    obtain ⟨w, hw, hframe⟩ := hnode.exists_field (fun h => absurd h hexpression) hv
    rw [hsame, Rewriting.Frame.same_iff] at hframe
    rw [readyField_statement (.inl ⟨rfl, hkey⟩), mode_of_visited key rfl hvisited (by simp)] at hw
    rw [Json.field_of_get? hv] at hbranch
    rw [hframe] at hnull ⊢
    have hcompleted : Fields.get? key (completed "IfStatement" fields) = some v :=
      get?_completed (fun h => absurd h hexpression) hv
    obtain ⟨-, ⟨rfl, -⟩ | ⟨branch, btype, rfl, hbtype⟩⟩ := exists_branch hnode.proper hnode.type (.inl ⟨rfl, hkey⟩) hcompleted
    · cases hw
      cases hnull
    · exact endsWell_asBlock (hnode.proper.field hv) (Json.isNode_of_type? hbtype) (hbranch rfl) hw

/-- The clause that handles what a `try` throws, and what becomes of its body. -/
theorem RewrittenNode.exists_clause (hnode : RewrittenNode code classes up "TryStatement" name fields made out)
    (hnull : (Json.field "handler" (.obj fields)).isNull = false) :
    (((Json.field "handler" (.obj fields)).field "body").Proper) ∧ ∃ classes up, Rewrites code .visited classes up
      ((Json.field "handler" (.obj fields)).field "body") ((Json.field "handler" (.obj out)).field "body") := by
  obtain ⟨clause, hvalue, htype⟩ : ∃ clause, Json.field "handler" (.obj fields) = .obj clause ∧
      Fields.type? clause = some "CatchClause" := by
    rcases Json.fits_optional (hnode.proper.fits "handler" hnode.type rfl rfl) with h | h | ⟨clause, ctype, h, hctype, hmem⟩
    · rw [Json.field, Json.get?, h] at hnull
      cases hnull
    · rw [Json.field_of_get? h] at hnull
      cases hnull
    · exact ⟨clause, Json.field_of_get? h, List.mem_singleton.1 hmem ▸ hctype⟩
  have hclause := hnode.field_visited "handler" (by simp) (by decide)
  have hproper := hnode.proper.field_of "handler"
  rw [hvalue] at hclause hproper ⊢
  obtain ⟨cname, cmade, cout, hcout, hcnode⟩ := hclause.exists_node htype
  rw [hcout]
  exact ⟨hproper.field_of "body", _, _, hcnode.field_visited "body" (by simp) (by decide)⟩

variable (hcalls : ∀ events, calls events → Balanced events) (hnames : (Json.obj fields).Unreserved)

include hcalls hnames

/-- What a rewritten return answers is evaluated, and then recorded. -/
theorem RewrittenNode.endsWell_return (hnode : RewrittenNode code classes up "ReturnStatement" name fields made out) :
    EndsWell calls true (.obj out) := by
  intro events c hrun
  obtain ⟨classes', up', line, argument, -, hargument, -, hout⟩ := hnode.returnRewritten
  have hends {events c} (hrun : Runs calls (.value (if argument.isNull then .voidZero else argument)) events c) :
      Balanced events := by
    split at hrun
    · exact (hrun.value_own rfl).2.balanced hcalls
    · exact (hargument.value_ends hcalls (hnode.proper.field_of _) (hnames.field _) hrun).2
  have hpassing : (returnName, Kind.ret) ∈ passing := by simp [passing]
  rcases hrun.statement_return (s := .obj out) hnode.type?_out (by rw [hout]; rfl) with ⟨rfl, hresult⟩ | ⟨rfl, hresult⟩
  all_goals rw [hout] at hresult
  · obtain ⟨hc, -⟩ | ⟨-, first, event, rfl, hkind, hrun⟩ := hresult.value_passing hpassing
    · cases hc
    · exact ⟨rfl, first, event, rfl, hends hrun, hkind⟩
  · obtain ⟨-, hrun⟩ | ⟨hc, -⟩ := hresult.value_passing hpassing
    · exact .of_balanced (hends hrun) (by decide)
    · cases hc

/-- The test of a rewritten `if` is evaluated, and then recorded. -/
theorem RewrittenNode.balanced_test (hnode : RewrittenNode code classes up "IfStatement" name fields made out)
    (hrun : Runs calls (.value (Json.field "test" (.obj out))) events c) : Balanced events := by
  obtain ⟨test, -, htest, -, -⟩ := Json.fits_node (hnode.proper.fits "test" hnode.type rfl rfl)
  obtain ⟨w, hw, hframe⟩ := hnode.exists_field (by decide) htest
  rw [readyField_eq_self (by decide), mode_of_visited "test" rfl (by decide) (by decide)] at hw
  have hends {events c} (hrun : Runs calls (.value w) events c) : Balanced events :=
    (hw.value_ends hcalls (hnode.proper.field htest) (Json.everyObject_get? hnames htest) hrun).2
  have hpassing : (testName, Kind.test) ∈ passing := by simp [passing]
  rw [show frameKind "IfStatement" "test" = .test from rfl] at hframe
  generalize Json.field "test" (.obj out) = o at hframe hrun
  cases hframe with
  | test line _ text _ _ =>
    obtain ⟨rfl, hthrown⟩ | ⟨rfl, first, event, rfl, hkind, hrun⟩ := hrun.value_passing hpassing
    · exact hends hthrown
    · exact (hends hrun).append (.singleton (by rw [Event.informs, hkind]; rfl))

end Nodes

/-- The block and the handler of a `try` end as they do by themselves. -/
theorem ends_attempt (hcalls : ∀ events, calls events → Balanced events) {r : Bool} {s : Json}
    (hblock : EndsWell calls r (s.field "block"))
    (hhandler : (s.field "handler").isNull = false → EndsWell calls r ((s.field "handler").field "body"))
    {events : List Event} {c : Completion} (hrun : Runs calls (.attempt s) events c) : Ends r events c := by
  obtain ⟨hrun, -⟩ | ⟨first, second, rfl, hnull, hfirst, hsecond⟩ := hrun.attempt_cases
  · exact hblock _ _ hrun
  · refine .append ((hblock _ _ hfirst).balanced (by decide)) ?_
    obtain ⟨-, rfl, hnested⟩ | ⟨before, after, rfl, hnested, -, hrun⟩ := hsecond.handler_cases
    · exact .of_balanced (hnested.balanced hcalls) (by decide)
    · exact .append (hnested.balanced hcalls) (hhandler hnull _ _ hrun)

/-- A `try` ends as its finalizer does, or as what comes before. A return may leave that only if there is no finalizer. -/
theorem endsWell_try {r : Bool} {s : Json} (htype : s.type? = some "TryStatement")
    (hattempt : ∀ events c, Runs calls (.attempt s) events c → Ends (r && (s.field "finalizer").isNull) events c)
    (hfinalizer : (s.field "finalizer").isNull = false → EndsWell calls r (s.field "finalizer")) : EndsWell calls r s := by
  intro events c hrun
  obtain ⟨-, hrun⟩ | ⟨first, second, b, d, hnull, rfl, rfl, hfirst, hsecond⟩ := hrun.statement_try htype
  · exact (hattempt _ _ hrun).mono
  · have hfirst := hattempt _ _ hfirst
    rw [hnull, Bool.and_false] at hfirst
    have hb : b ≠ .returned := by
      rintro rfl
      rw [Ends, if_pos rfl] at hfirst
      cases hfirst.1
    have hsecond := hfinalizer hnull _ _ hsecond
    by_cases hd : d = .normal
    · rw [if_pos hd]
      exact .of_balanced ((hfirst.balanced hb).append (hsecond.balanced (by rw [hd]; decide))) hb
    · rw [if_neg hd]
      exact .append (hfirst.balanced hb) hsecond

/-- Statements that are built so are rewritten to statements that end so. -/
theorem Structured.ends (hcalls : ∀ events, calls events → Balanced events) {r : Bool} {s : Json} (h : Structured r s)
    (hproper : s.Proper) (hnames : s.Unreserved) : ∀ classes up t, Rewrites code .visited classes up s t → EndsWell calls r t := by
  induction h with
  | @expression r s htype =>
    intro classes up t hrw events c hrun
    obtain ⟨fields, rfl⟩ := exists_fields htype
    obtain ⟨name, made, out, rfl, hnode⟩ := hrw.exists_node htype
    have hfield := hnode.field_visited "expression" (by simp) (by decide)
    obtain ⟨hc, hbalanced⟩ := hfield.value_ends hcalls (hproper.field_of _) (hnames.field _)
      (hrun.statement_expression (s := .obj out) hnode.type?_out)
    exact .of_balanced hbalanced hc
  | @throw r s htype =>
    intro classes up t hrw events c hrun
    obtain ⟨fields, rfl⟩ := exists_fields htype
    obtain ⟨name, made, out, rfl, hnode⟩ := hrw.exists_node htype
    have hfield := hnode.field_visited "argument" (by simp) (by decide)
    obtain ⟨rfl, d, hargument⟩ := hrun.statement_throw (s := .obj out) hnode.type?_out
    exact .of_balanced (hfield.value_ends hcalls (hproper.field_of _) (hnames.field _) hargument).2 (by decide)
  | @result s htype =>
    intro classes up t hrw
    obtain ⟨fields, rfl⟩ := exists_fields htype
    obtain ⟨name, made, out, rfl, hnode⟩ := hrw.exists_node htype
    exact hnode.endsWell_return hcalls hnames
  | @block r s htype hitems ih =>
    intro classes up t hrw
    obtain ⟨fields, rfl⟩ := exists_fields htype
    exact endsWell_block htype hrw fun x hx => ih x hx ((hproper.field_of _).of_mem_items hx) ((hnames.field _).of_mem_items hx)
  | @branch r s htype hbranches ih =>
    intro classes up t hrw events c hrun
    obtain ⟨fields, rfl⟩ := exists_fields htype
    obtain ⟨name, made, out, rfl, hnode⟩ := hrw.exists_node htype
    obtain ⟨hc, hrun⟩ | ⟨key, hkey, first, second, rfl, hnull, hfirst, hsecond⟩ :=
      hrun.statement_if (s := .obj out) hnode.type?_out
    · exact .of_balanced (hnode.balanced_test hcalls hnames hrun) hc
    · have hbranch := hnode.endsWell_branch hkey hnull fun h => ih key hkey h (hproper.field_of key) (hnames.field key)
      exact .append (hnode.balanced_test hcalls hnames hfirst) (hbranch _ _ hsecond)
  | @attempt r s htype hblock hhandler hfinalizer ihb ihh ihf =>
    intro classes up t hrw
    obtain ⟨fields, rfl⟩ := exists_fields htype
    obtain ⟨name, made, out, rfl, hnode⟩ := hrw.exists_node htype
    have hfield (key : String) (hkey : ¬ (key = "loc" ∨ key = "range")) := hnode.field_visited key (by simp) hkey
    have hnull (key : String) (hkey : ¬ (key = "loc" ∨ key = "range")) :
        (Json.field key (.obj out)).isNull = (Json.field key (.obj fields)).isNull := (hfield key hkey).isNull_eq
    refine endsWell_try hnode.type?_out (fun events c hrun => ?_) fun h => ?_
    · rw [hnull "finalizer" (by decide)]
      refine ends_attempt hcalls (ihb (hproper.field_of _) (hnames.field _) _ _ _ (hfield "block" (by decide))) (fun h => ?_) hrun
      rw [hnull "handler" (by decide)] at h
      obtain ⟨clauseProper, classes, up, hclause⟩ := hnode.exists_clause h
      exact ihh h clauseProper ((hnames.field _).field _) _ _ _ hclause
    · rw [hnull "finalizer" (by decide)] at h
      exact ihf h (hproper.field_of _) (hnames.field _) _ _ _ (hfield "finalizer" (by decide))

end Rewritten

/-! ## Bodies of functions -/

section Bodies

variable {calls : List Event → Prop} {ss : List Json} {events : List Event} {c : Completion}

/-- What is tried is left with a record of a return, or with an exception. -/
theorem run_closed {endLine : Json} (h : ∀ s ∈ ss, EndsWell calls true s) (hrun : Runs calls (.list (closed ss endLine)) events c) :
    (c = .thrown ∧ Balanced events) ∨
      c ≠ .thrown ∧ ∃ inner closing, events = inner ++ [closing] ∧ Balanced inner ∧ closing.kind = .ret := by
  have hends {events c} (hrun : Runs calls (.list ss) events c) (hc : c ≠ .normal) : (c = .thrown ∧ Balanced events) ∨
      c ≠ .thrown ∧ ∃ inner closing, events = inner ++ [closing] ∧ Balanced inner ∧ closing.kind = .ret := by
    have hends := ends_list h hrun
    cases c with
    | normal => exact absurd rfl hc
    | returned => exact .inr ⟨by decide, hends.2⟩
    | thrown => exact .inl ⟨rfl, hends.balanced (by decide)⟩
  unfold closed at hrun
  split at hrun
  · next hlast => exact hends hrun (list_getLast?_return hlast hrun)
  · obtain ⟨hc, hrun⟩ | ⟨before, after, rfl, hbefore, hafter⟩ := list_append hrun
    · exact hends hrun hc
    · have hbefore := (ends_list h hbefore).balanced (by decide)
      obtain ⟨hc, hrecord⟩ | ⟨first, second, rfl, hrecord, hnil⟩ := hafter.list_cons
      · exact absurd (run_record hrecord).1 hc
      · obtain ⟨rfl, rfl⟩ := hnil.list_nil
        obtain ⟨-, event, rfl, hkind⟩ := run_record hrecord
        exact .inr ⟨by decide, before, event, by simp, hbefore, hkind⟩

/-- The handler of a guard records the exception and throws it again. -/
theorem run_handler {line name : Json} (hrun : Runs calls (.handler (Probe.handler line name)) events c) :
    c = .thrown ∧ ∃ closing, events = [closing] ∧ closing.kind = .throw := by
  obtain ⟨hbinds, -⟩ | ⟨first, second, rfl, -, hnone, hbody⟩ := hrun.handler_cases
  · cases hbinds
  rw [hnone rfl, List.nil_append]
  obtain ⟨hc, hrecord⟩ | ⟨before, after, rfl, hrecord, hrethrow⟩ := (hbody.statement_block rfl).list_cons
  · exact absurd (run_record hrecord).1 hc
  obtain ⟨-, closing, rfl, hkind⟩ := run_record hrecord
  have hthrow {events c} (hrun : Runs calls (.statement (.obj [("type", .str "ThrowStatement"),
      ("argument", .ident (.str caughtName))])) events c) : c = .thrown ∧ events = [] := by
    obtain ⟨rfl, d, hrun⟩ := hrun.statement_throw rfl
    exact ⟨rfl, hrun.value_caught rfl⟩
  obtain ⟨-, hrethrow⟩ | ⟨_, _, -, hrethrow, -⟩ := hrethrow.list_cons
  · obtain ⟨rfl, rfl⟩ := hthrow hrethrow
    exact ⟨rfl, closing, rfl, hkind⟩
  · cases (hthrow hrethrow).1

/-- The statements of a body: directives, the record of the call, and the guard around the rest. -/
theorem run_functionBody {directives : List Json} {line endLine name : Json} {params : List Json}
    (hdirectives : ∀ s ∈ directives, s.type? = some "ExpressionStatement" ∧ (s.field "expression").type? = some "Literal")
    (h : ∀ s ∈ ss, EndsWell calls true s)
    (hrun : Runs calls (.list (directives ++ [called line name params, guarded (closed ss endLine) endLine name])) events c) :
    IsInvocation c events := by
  have hbody := list_literals hdirectives hrun
  obtain ⟨hc, hrecord⟩ | ⟨before, after, rfl, hrecord, hguard⟩ := hbody.list_cons
  · exact absurd (run_record hrecord).1 hc
  obtain ⟨-, opening, rfl, hopening⟩ := run_record hrecord
  have hguarded {events c} (hrun : Runs calls (.statement (guarded (closed ss endLine) endLine name)) events c) :
      ∃ inner closing, events = inner ++ [closing] ∧ Balanced inner ∧ closing.kind = if c = .thrown then .throw else .ret := by
    obtain ⟨-, hattempt⟩ | ⟨_, _, _, _, hfinalizer, -⟩ := hrun.statement_try rfl
    · obtain ⟨hblock, hc⟩ | ⟨first, second, rfl, -, hblock, hhandler⟩ := hattempt.attempt_cases
      · obtain ⟨rfl, -⟩ | ⟨hc, inner, closing, rfl, hinner, hkind⟩ := run_closed h (hblock.statement_block rfl)
        · rcases hc with hc | hc
          · exact absurd rfl hc
          · cases hc
        · exact ⟨inner, closing, rfl, hinner, by rw [hkind, if_neg hc]⟩
      · obtain ⟨-, hfirst⟩ | ⟨hc, -⟩ := run_closed h (hblock.statement_block rfl)
        · obtain ⟨rfl, closing, rfl, hkind⟩ := run_handler hhandler
          exact ⟨first, closing, rfl, hfirst, hkind⟩
        · exact absurd rfl hc
    · cases hfinalizer
  obtain ⟨-, hstatement⟩ | ⟨first, second, rfl, hstatement, hnil⟩ := hguard.list_cons
  · obtain ⟨inner, closing, rfl, hinner, hkind⟩ := hguarded hstatement
    exact ⟨opening, inner, closing, rfl, hopening, hinner, hkind⟩
  · obtain ⟨rfl, rfl⟩ := hnil.list_nil
    obtain ⟨inner, closing, rfl, hinner, hkind⟩ := hguarded hstatement
    exact ⟨opening, inner, closing, by simp, hopening, hinner, hkind⟩

end Bodies

/-! ## Functions -/

/-- The statements of the body of a function. -/
def bodyOf (fields : Fields Json) : List Json := ((Json.field "body" (.obj fields)).field "body").items

/-- A function that is neither a generator nor asynchronous, with no names of the probes, whose body is built from the
statements above; an expression counts as a return. -/
structure IsPlainFunction (fields : Fields Json) : Prop where
  notGenerator : (Json.field "generator" (.obj fields)).truthy = false
  notAsync : (Json.field "async" (.obj fields)).truthy = false
  unreserved : (Json.obj fields).Unreserved
  statements : ∀ s ∈ ((bodyBlock (Json.field "body" (.obj fields))).field "body").items, Structured true s

/-- The bodies of the functions of an instrumented program that were plain before. -/
def rewrittenBodies (tree out : Json) (body : List Json) : Prop :=
  ∃ p ∈ (functions tree).zip (functionSites out), IsPlainFunction p.1.fields ∧ body = bodyOf p.2

theorem Structured.exists_type {r : Bool} {s : Json} (h : Structured r s) :
    ∃ fields type, s = .obj fields ∧ Fields.type? fields = some type := by
  have htype : ∃ type, s.type? = some type := by
    cases h with
    | expression h | throw h | result h | block h | branch h | attempt h => exact ⟨_, h⟩
  obtain ⟨type, htype⟩ := htype
  obtain ⟨fields, rfl⟩ := exists_fields htype
  exact ⟨fields, type, rfl, htype⟩

/-- Every execution of the body of a plain function is one invocation, if the calls made within it are balanced. -/
theorem Rewriting.FunctionRewritten.isInvocation {code : Option String} {l : Landmark} {out : Fields Json}
    (h : FunctionRewritten code l out) (hplain : IsPlainFunction l.fields) {calls : List Event → Prop}
    (hcalls : ∀ events, calls events → Balanced events) {events : List Event} {c : Completion}
    (hrun : Runs calls (.list (bodyOf out)) events c) : IsInvocation c events := by
  obtain ⟨line, endLine, name, params, ss, ts, block, rest, -, -, -, -, -, hss, hstatements, hblock, -, hbody, rfl, -⟩ := h.body
  rw [bodyOf, hblock, hbody] at hrun
  have hstructured : ∀ s ∈ ss, Structured true s := by
    have := hplain.statements
    rwa [hss] at this
  have hunreserved : ∀ s ∈ ss, s.Unreserved := by
    have hready : (readyField "FunctionExpression" "body" (Json.field "body" (.obj l.fields))).Unreserved :=
      readyField_unreserved (hplain.unreserved.field "body")
    rw [readyField_function (by decide)] at hready
    have hitems := hready.field "body"
    rw [hss] at hitems
    exact fun s hs => hitems.item hs
  have hproper : ∀ s ∈ ss, s.Proper := by
    refine ((List.forall₂_and_left _ _).1 (((List.forall₂_and_left _ _).2 ⟨hstructured, hstatements⟩).imp (S := fun s t => s.Proper ∧
      Rewrites code .visited l.classes none s t) fun s t hst => ?_)).1
    obtain ⟨fields, type, rfl, htype⟩ := hst.1.exists_type
    obtain ⟨_, _, _, -, hnode⟩ := hst.2.exists_node htype
    exact ⟨hnode.proper, hst.2⟩
  refine run_functionBody (fun s hs => ?_) (fun t ht => ?_) hrun
  · have hmem : s ∈ ss := (List.takeWhile_prefix _).subset hs
    obtain ⟨fields, type, rfl, htype⟩ := (hstructured s hmem).exists_type
    obtain ⟨rfl, literal, hliteral, hltype⟩ := exists_literal (hproper _ hmem) htype (List.all_eq_true.1 List.all_takeWhile _ hs)
    exact ⟨htype, Json.field_of_get? hliteral ▸ hltype⟩
  · refine endsWell_weave (fun p hp => ?_) t ((List.dropWhile_suffix _).subset ht)
    have hmem := (List.of_mem_zip hp).1
    exact (hstructured _ hmem).ends hcalls (hproper _ hmem) (hunreserved _ hmem) _ _ _
      ((List.forall₂_iff_zip.1 hstatements).2 hp)

/-- Every function of an instrumented program comes from a function of the program. -/
theorem functionRewritten_of_mem_zip {tree out : Json} {code : Option String} (h : tree.WellFormed)
    (hrun : instrument tree code = .ok out) : (functions tree).length = (functionSites out).length ∧
      ∀ p ∈ (functions tree).zip (functionSites out), FunctionRewritten code p.1 p.2 := by
  obtain ⟨hlength, hzip⟩ := List.forall₂_iff_zip.1 (functions_rewritten h hrun)
  refine ⟨hlength, fun p hp => ?_⟩
  obtain ⟨hl, hrewritten⟩ := hzip hp
  exact hrewritten.functionRewritten (List.mem_filter.1 hl).2 (classes_of_method h hl)

/-- Calls of plain functions are balanced, however deep they are nested. -/
theorem balanced_invokes {tree out : Json} {code : Option String}
    (hfunctions : ∀ p ∈ (functions tree).zip (functionSites out), FunctionRewritten code p.1 p.2) :
    ∀ (depth : Nat) (events : List Event), Invokes (rewrittenBodies tree out) depth events → Balanced events
  | 0, _, h => h.elim
  | depth + 1, events, h => by
    obtain ⟨body, c, ⟨p, hp, hplain, rfl⟩, hrun⟩ := h
    exact ((hfunctions p hp).isInvocation hplain (balanced_invokes hfunctions depth) hrun).balanced

/-- Every terminating execution of a plain function of an instrumented program is one invocation: its call, the events
of the calls made within it, and its end, which is an exception exactly if the function is left by one. -/
theorem instrument_invocations {tree out : Json} {code : Option String} (h : tree.WellFormed)
    (hrun : instrument tree code = .ok out) : (functions tree).length = (functionSites out).length ∧
      ∀ p ∈ (functions tree).zip (functionSites out), IsPlainFunction p.1.fields → ∀ depth events c,
        Runs (Invokes (rewrittenBodies tree out) depth) (.list (bodyOf p.2)) events c → IsInvocation c events := by
  obtain ⟨hlength, hfunctions⟩ := functionRewritten_of_mem_zip h hrun
  refine ⟨hlength, fun p hp hplain depth events c hbody => ?_⟩
  exact (hfunctions p hp).isInvocation hplain (balanced_invokes hfunctions depth) hbody

/-! ## A return before a finalizer -/

section Finalizer

def returning (e : Json) : Json := .obj [("type", .str "ReturnStatement"), ("argument", e)]

def attempting (block finalizer : List Json) : Json :=
  .obj [("type", .str "TryStatement"), ("block", blockOf block), ("handler", .null), ("finalizer", blockOf finalizer)]

def declaring (name : String) (body : List Json) : Fields Json :=
  [("type", .str "FunctionDeclaration"), ("id", .ident (.str name)), ("params", .arr []), ("body", blockOf body)]

def programOf (functions : List (Fields Json)) : Json :=
  .obj [("type", .str "Program"), ("body", .arr (functions.map .obj))]

/-- A function that returns from a `try` whose finalizer calls another function. -/
def finalizerProgram : Json := programOf
  [declaring "f" [attempting [returning (.literal (.int 1))] [.expressionStatement (.callOf "g" [])]],
    declaring "g" [returning (.literal (.int 2))]]

def recordedReturn (n : Int) : Json := returning (wrapped returnName [.literal (.int (-1))] (.literal (.int n)))

def tracedFunction (name : String) (statements : List Json) : Fields Json :=
  declaring name [called (.int (-1)) (.str name) [], guarded statements (.int (-1)) (.str name)]

def finalizerTraced : Json := programOf
  [tracedFunction "f" [attempting [recordedReturn 1] [.expressionStatement (.callOf "g" [])], returned (.int (-1))],
    tracedFunction "g" [recordedReturn 2]]

theorem instrument_finalizerProgram : instrument finalizerProgram none = .ok finalizerTraced :=
  instrument_eq_ok (by decide +kernel)

/-- The function with the finalizer, before and after. -/
def finalizing : Landmark × Fields Json :=
  (⟨[], none, declaring "f" [attempting [returning (.literal (.int 1))] [.expressionStatement (.callOf "g" [])]]⟩,
    tracedFunction "f" [attempting [recordedReturn 1] [.expressionStatement (.callOf "g" [])], returned (.int (-1))])

/-- The function that the finalizer calls, before and after. -/
def finalizers : Landmark × Fields Json :=
  (⟨[], none, declaring "g" [returning (.literal (.int 2))]⟩, tracedFunction "g" [recordedReturn 2])

theorem functions_finalizerProgram :
    (functions finalizerProgram).zip (functionSites finalizerTraced) = [finalizing, finalizers] := by rfl

variable {calls : List Event → Prop}

theorem run_recordedReturn (n : Int) : Runs calls (.statement (recordedReturn n)) [{ kind := .ret }] .returned := by
  have hvalue : Runs calls (.value (wrapped returnName [.literal (.int (-1))] (.literal (.int n)))) ([] ++ [{ kind := .ret }])
      .normal := .passed List.mem_cons_self rfl rfl (.literal rfl) rfl
  exact .returnValue rfl rfl hvalue

theorem run_tracedFunction (name : String) {statements : List Json} {events : List Event}
    (h : Runs calls (.list statements) events .returned) :
    Runs calls (.list (bodyOf (tracedFunction name statements))) ({ kind := .call } :: events) .returned := by
  have hcalled : Runs calls (.statement (called (.int (-1)) (.str name) [])) [{ kind := .call }] .normal :=
    .expression rfl (.record rfl rfl)
  exact .next hcalled (.stop (.attempted rfl rfl (.uncaught (.block rfl h) (.inl (by decide)))) (by decide))

theorem run_attempting {events : List Event} (h : calls events) :
    Runs calls (.statement (attempting [recordedReturn 1] [.expressionStatement (.callOf "g" [])]))
      ([{ kind := .ret }] ++ (events ++ [] ++ [])) .returned := by
  have hblock : Runs calls (.statement (blockOf [recordedReturn 1])) [{ kind := .ret }] .returned :=
    .block rfl (.stop (run_recordedReturn 1) (by decide))
  have hcall : Runs calls (.statement (.expressionStatement (.callOf "g" []))) (events ++ []) .normal :=
    .expression rfl (.own rfl (by decide) (.call h .nil))
  have hfinalizer : Runs calls (.statement (blockOf [.expressionStatement (.callOf "g" [])])) (events ++ [] ++ []) .normal :=
    .block rfl (.next hcall .done)
  have hattempt : Runs calls (.attempt (attempting [recordedReturn 1] [.expressionStatement (.callOf "g" [])])) [{ kind := .ret }]
      .returned := .uncaught hblock (.inl (by decide))
  exact .finalized rfl rfl hattempt hfinalizer

theorem isPlainFunction_finalizers : IsPlainFunction finalizers.1.fields where
  notGenerator := rfl
  notAsync := rfl
  unreserved := by decide +kernel
  statements s hs := by
    rw [List.mem_singleton.1 hs]
    exact .result rfl

theorem run_finalizers : Runs calls (.list (bodyOf finalizers.2)) [{ kind := .call }, { kind := .ret }] .returned :=
  run_tracedFunction "g" (.stop (run_recordedReturn 2) (by decide))

theorem instrument_invocations_finalizers : finalizerProgram.WellFormed ∧
    instrument finalizerProgram none = .ok finalizerTraced ∧ IsPlainFunction finalizers.1.fields ∧
    Runs (Invokes (rewrittenBodies finalizerProgram finalizerTraced) 0) (.list (bodyOf finalizers.2))
      [{ kind := .call }, { kind := .ret }] .returned ∧
    IsInvocation .returned [{ kind := .call }, { kind := .ret }] := by
  have hwell : finalizerProgram.WellFormed := by decide +kernel
  obtain ⟨-, hinvocations⟩ := instrument_invocations hwell instrument_finalizerProgram
  rw [functions_finalizerProgram] at hinvocations
  exact ⟨hwell, instrument_finalizerProgram, isPlainFunction_finalizers, run_finalizers,
    hinvocations finalizers (by simp) isPlainFunction_finalizers 0 _ _ run_finalizers⟩

/-- The return of the first function is recorded before the call that its finalizer makes. -/
theorem records_after_return : finalizerProgram.WellFormed ∧ finalizerProgram.Unreserved ∧
    instrument finalizerProgram none = .ok finalizerTraced ∧
    ∃ p ∈ (functions finalizerProgram).zip (functionSites finalizerTraced), ∃ events,
      Runs (Invokes (rewrittenBodies finalizerProgram finalizerTraced) 1) (.list (bodyOf p.2)) events .returned ∧
        ¬ IsInvocation .returned events := by
  refine ⟨by decide +kernel, by decide +kernel, instrument_finalizerProgram, ?_⟩
  have hcall : Invokes (rewrittenBodies finalizerProgram finalizerTraced) 1 [{ kind := .call }, { kind := .ret }] :=
    ⟨_, .returned, ⟨finalizers, by rw [functions_finalizerProgram]; simp, isPlainFunction_finalizers, rfl⟩, run_finalizers⟩
  refine ⟨finalizing, by rw [functions_finalizerProgram]; simp, _,
    run_tracedFunction "f" (.stop (run_attempting hcall) (by decide)), ?_⟩
  rintro ⟨opening, inner, closing, heq, -, hinner, -⟩
  obtain ⟨-, heq⟩ := List.cons.inj heq
  cases inner with
  | nil => cases heq
  | cons e inner =>
    have hclosing := hinner.not_closing
    rw [← (List.cons.inj heq).1] at hclosing
    cases hclosing

end Finalizer

end ScriptTrace
