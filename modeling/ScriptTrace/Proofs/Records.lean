import ScriptTrace.Proofs.ProperNodes
import ScriptTrace.Proofs.Rewriting

/-!
# What the records consist of

A record is a call of the runtime with literals and snapshots, and a snapshot reads a variable. So no
record holds any code of the user.

* `Target.IsVariable` : what is looked at after a write is a variable or `this`;
* `Probe.IsRecordStatement`, `Probe.IsLocals` : statements that record, and those that record variables;
* `exists_of_mem_writesAfter`, `isLocals_of_iteration` : the records after statements, and those of an iteration.
-/

namespace ScriptTrace

open Probe Rewriting

/-! ## Targets -/

/-- A variable, or `this`. -/
def Target.IsVariable (t : Target) : Prop := t.expression = .thisNode ∨ ∃ name, t.expression = .ident name

theorem Target.IsVariable.named (name : Json) : (Target.named name).IsVariable := .inr ⟨name, rfl⟩

theorem isVariable_of_mem_named {names : List Json} {t : Target} (h : t ∈ names.map Target.named) : t.IsVariable := by
  obtain ⟨name, -, rfl⟩ := List.mem_map.1 h
  exact .named name

/-- At the root of a chain of members stands a variable. -/
theorem isVariable_of_rootOf (j : Json) : ∀ {t : Target}, rootOf j = .ok (some t) → t.IsVariable := by
  induction j using Json.ind with
  | scalar j hj =>
    intro t h
    cases j <;> first | cases h | cases hj
  | arr =>
    intro t h
    cases h
  | obj fields ih =>
    intro t h
    rw [rootOf, Json.note_obj, rootRule] at h
    obtain ⟨member, -, h⟩ := bind_eq_ok.1 h
    split at h
    · obtain ⟨object, hobject, h⟩ := bind_eq_ok.1 h
      rw [Layer.require_obj, Fields.get?_mapValues, Option.map_eq_some_iff] at hobject
      obtain ⟨x, hx, rfl⟩ := hobject
      exact ih _ (Fields.mem_of_get? hx) h
    · obtain ⟨this, -, h⟩ := bind_eq_ok.1 h
      split at h
      · cases h
        exact .inl rfl
      · obtain ⟨identifier, -, h⟩ := bind_eq_ok.1 h
        split at h
        · obtain ⟨name, -, h⟩ := bind_eq_ok.1 h
          cases h
          exact .named _
        · cases h

theorem isVariable_of_targetsOf {target : Json} {targets : List Target} (h : targetsOf target = .ok targets) :
    ∀ t ∈ targets, t.IsVariable := by
  rw [targetsOf] at h
  split at h
  · cases h
    simp
  · obtain ⟨identifier, -, h⟩ := bind_eq_ok.1 h
    split at h
    · obtain ⟨name, -, h⟩ := bind_eq_ok.1 h
      cases h
      intro t ht
      rw [List.mem_singleton.1 ht]
      exact .named name
    · obtain ⟨member, -, h⟩ := bind_eq_ok.1 h
      split at h
      · obtain ⟨root, hroot, h⟩ := bind_eq_ok.1 h
        cases h
        intro t ht
        rw [Option.mem_toList] at ht
        subst ht
        exact isVariable_of_rootOf target hroot
      · obtain ⟨pattern, -, h⟩ := bind_eq_ok.1 h
        split at h
        · obtain ⟨names, -, h⟩ := bind_eq_ok.1 h
          cases h
          exact fun t ht => isVariable_of_mem_named ht
        · cases h
          simp

/-- What a list of successful computations answers is answered by one of them. -/
theorem exists_of_mem_mapM {α β : Type} {f : α → Except Fault β} {y : β} : ∀ {xs : List α} {ys : List β},
    xs.mapM f = .ok ys → y ∈ ys → ∃ x ∈ xs, f x = .ok y
  | [], _, h, hy => by
    cases h
    cases hy
  | x :: xs, ys, h, hy => by
    rw [List.mapM_cons] at h
    obtain ⟨z, hz, h⟩ := bind_eq_ok.1 h
    obtain ⟨zs, hzs, h⟩ := bind_eq_ok.1 h
    cases h
    rcases List.mem_cons.1 hy with rfl | hy
    · exact ⟨x, List.mem_cons_self, hz⟩
    · obtain ⟨x', hx', hf⟩ := exists_of_mem_mapM hzs hy
      exact ⟨x', List.mem_cons_of_mem x hx', hf⟩

/-- The targets of a sequence of assignments are variables. -/
theorem isVariable_of_writtenTargets : ∀ (j : Json) {targets : List Target}, j.Proper → writtenTargets j = .ok targets →
    ∀ t ∈ targets, t.IsVariable
  | .obj fields, targets, hproper, h => by
    cases hn : (Json.obj fields).isNode with
    | false =>
      have hlayer : (Layer.obj (Fields.mapValues (Json.annotate writtenRule) fields)).isNode = false := by
        rw [Json.isNode_obj] at hn
        rw [Layer.isNode, Fields.get?_mapValues, Option.isSome_map, hn]
      rw [writtenTargets, Json.note_obj, writtenRule, hlayer] at h
      cases h
      simp
    | true =>
      obtain ⟨type, htype⟩ := hproper.exists_type hn
      by_cases hassign : type = "AssignmentExpression"
      · subst hassign
        obtain ⟨left, -, hleft, -, -⟩ := Json.fits_node (hproper.fits "left" htype rfl rfl)
        rw [writtenTargets_assignment htype hleft] at h
        exact isVariable_of_targetsOf h
      by_cases hupdate : type = "UpdateExpression"
      · subst hupdate
        obtain ⟨argument, -, hargument, -, -⟩ := Json.fits_node (hproper.fits "argument" htype rfl rfl)
        rw [writtenTargets_update htype hargument] at h
        exact isVariable_of_targetsOf h
      by_cases hsequence : type = "SequenceExpression"
      · subst hsequence
        obtain ⟨items, hitems, -⟩ := Json.fits_list (hproper.fits "expressions" htype rfl rfl)
        rw [writtenTargets_sequence htype hitems] at h
        obtain ⟨lists, hlists, rfl⟩ := map_eq_ok.1 h
        intro t ht
        obtain ⟨list, hlist, ht⟩ := List.mem_flatten.1 ht
        obtain ⟨item, hitem, hlist⟩ := exists_of_mem_mapM hlists hlist
        have hsize := List.sizeOf_lt_of_mem (Fields.mem_of_get? hitems)
        have hsize' := List.sizeOf_lt_of_mem hitem
        exact isVariable_of_writtenTargets item (Json.everyObject_arr.1 (hproper.field hitems) item hitem) hlist t ht
      · rw [writtenTargets_other htype (by simp [hassign, hupdate, hsequence])] at h
        cases h
        simp
  | .null, _, _, h | .bool _, _, _, h | .int _, _, _, h | .float _, _, _, h | .str _, _, _, h | .arr _, _, _, h => by
    cases h
    simp
termination_by j => sizeOf j
decreasing_by
  simp only [Json.obj.sizeOf_spec]
  simp only [Prod.mk.sizeOf_spec, Json.arr.sizeOf_spec] at hsize
  omega

/-! ## Records -/

namespace Probe

/-- A call that records an event. -/
def IsRecordCall (j : Json) : Prop := ∃ arguments, j = .callOf recordName arguments

/-- A statement that records an event. -/
def IsRecordStatement (j : Json) : Prop := ∃ e, IsRecordCall e ∧ j = .expressionStatement e

/-- A statement that records what variables hold. -/
def IsLocals (j : Json) : Prop :=
  ∃ kind line targets, (∀ t ∈ targets, t.IsVariable) ∧ j = localsStatement kind line targets

theorem isRecordCall_record (kind : String) (line : Json) (fields : List (String × Json)) :
    IsRecordCall (record kind line fields) := ⟨_, rfl⟩

theorem isRecordStatement_statement (kind : String) (line : Json) (fields : List (String × Json)) :
    IsRecordStatement (statement kind line fields) := ⟨_, isRecordCall_record .., rfl⟩

theorem IsLocals.isRecordStatement {j : Json} (h : IsLocals j) : IsRecordStatement j := by
  obtain ⟨kind, line, targets, -, rfl⟩ := h
  exact ⟨_, isRecordCall_record .., rfl⟩

theorem isLocals_of_targets {kind : String} {line : Json} {targets : List Target} (h : ∀ t ∈ targets, t.IsVariable) :
    IsLocals (localsStatement kind line targets) := ⟨kind, line, targets, h, rfl⟩

end Probe

/-- The records of an iteration are of the variables that the loop sets. -/
theorem exists_of_mem_iteration {line left : Json} {probes : List Json} (h : Visit.iterationProbes line left = .ok probes)
    {r : Json} (hr : r ∈ probes) : ∃ kind ∈ ["assign", "declare"], ∃ line targets, (∀ t ∈ targets, t.IsVariable) ∧
      r = localsStatement kind line targets := by
  unfold Visit.iterationProbes at h
  split at h
  · cases h
    cases hr
  · obtain ⟨declares, -, h⟩ := bind_eq_ok.1 h
    split at h
    · obtain ⟨names, -, h⟩ := bind_eq_ok.1 h
      cases h
      obtain ⟨name, -, rfl⟩ := List.mem_map.1 hr
      exact ⟨"declare", by simp, line, [.named name], fun t ht => List.mem_singleton.1 ht ▸ .named name, rfl⟩
    · obtain ⟨targets, htargets, h⟩ := bind_eq_ok.1 h
      split at h <;> cases h
      · cases hr
      · exact ⟨"assign", by simp, line, targets, isVariable_of_targetsOf htargets, List.mem_singleton.1 hr⟩

theorem isLocals_of_iteration {line left : Json} {probes : List Json} (h : Visit.iterationProbes line left = .ok probes) :
    ∀ r ∈ probes, IsLocals r := by
  intro r hr
  obtain ⟨kind, -, line, targets, hvariables, rfl⟩ := exists_of_mem_iteration h hr
  exact isLocals_of_targets hvariables

/-- What a node itself contributes are records of writes to variables. -/
theorem exists_of_mem_ownWrites {fields : Fields Json} {r : Json} (hr : r ∈ ownWrites fields) :
    ∃ kind ∈ ["assign", "declare"], ∃ line targets, (∀ t ∈ targets, t.IsVariable) ∧ r = localsStatement kind line targets := by
  have hassigned {target : Json} (hr : r ∈ answers (assigned fields target)) : ∃ kind ∈ ["assign", "declare"],
      ∃ line targets, (∀ t ∈ targets, t.IsVariable) ∧ r = localsStatement kind line targets := by
    cases h : assigned fields target with
    | error e => rw [h] at hr; cases hr
    | ok records =>
      rw [h] at hr
      obtain ⟨targets, htargets, h⟩ := bind_eq_ok.1 h
      split at h
      · cases h
        cases hr
      · obtain ⟨line, -, h⟩ := bind_eq_ok.1 h
        cases h
        exact ⟨"assign", by simp, line, targets, isVariable_of_targetsOf htargets, List.mem_singleton.1 hr⟩
  unfold ownWrites at hr
  split at hr
  · exact hassigned hr
  · exact hassigned hr
  · cases h : bound fields (Json.field "id" (.obj fields)) with
    | error e => rw [h] at hr; cases hr
    | ok records =>
      rw [h] at hr
      obtain ⟨names, -, h⟩ := bind_eq_ok.1 h
      obtain ⟨name, -, h⟩ := exists_of_mem_mapM h hr
      obtain ⟨line, -, h⟩ := bind_eq_ok.1 h
      cases h
      exact ⟨"declare", by simp, line, [.named name], fun t ht => List.mem_singleton.1 ht ▸ .named name, rfl⟩
  · cases hr

/-- Every record of a node is contributed by a node in it. -/
theorem exists_ownWrites (j : Json) : ∀ r ∈ j.writes, ∃ fields, r ∈ ownWrites fields := by
  induction j using Json.ind with
  | scalar j hj =>
    intro r hr
    cases j <;> first | cases hr | cases hj
  | arr items ih =>
    intro r hr
    rw [Json.writes_arr] at hr
    obtain ⟨x, hx, hr⟩ := List.mem_flatMap.1 hr
    split at hr
    · exact ih x hx r hr
    · cases hr
  | obj fields ih =>
    intro r hr
    rw [Json.writes, writesOf] at hr
    split at hr
    · cases hr
    · rcases List.mem_append.1 hr with hr | hr
      · obtain ⟨key, -, hr⟩ := List.mem_flatMap.1 hr
        rw [Json.writesFields_eq_mapValues, Fields.get?_mapValues] at hr
        cases hv : Fields.get? key fields with
        | none => rw [hv] at hr; cases hr
        | some v =>
          rw [hv] at hr
          exact ih (key, v) (Fields.mem_of_get? hv) r hr
      · exact ⟨fields, hr⟩

/-- The records after a statement are of writes to variables. -/
theorem exists_of_mem_writesAfter {s r : Json} (hr : r ∈ s.writesAfter) :
    ∃ kind ∈ ["assign", "declare"], ∃ line targets, (∀ t ∈ targets, t.IsVariable) ∧ r = localsStatement kind line targets := by
  rw [Json.writesAfter] at hr
  split at hr
  · obtain ⟨fields, hr⟩ := exists_ownWrites s r hr
    exact exists_of_mem_ownWrites hr
  · cases hr

theorem isLocals_writesAfter {s : Json} : ∀ r ∈ s.writesAfter, IsLocals r := by
  intro r hr
  obtain ⟨kind, -, line, targets, hvariables, rfl⟩ := exists_of_mem_writesAfter hr
  exact isLocals_of_targets hvariables

/-- The record before a statement is that of a class. -/
theorem exists_of_mem_declares {j r : Json} (hr : r ∈ j.declares) :
    j.type? = some "ClassDeclaration" ∧ ∃ line name, r = Probe.declared line name := by
  cases j with
  | obj fields =>
    simp only [Json.declares] at hr
    split at hr
    · next htype =>
      refine ⟨htype, ?_⟩
      generalize hrecord : (do return [Probe.declared (← Node.line (.obj fields)) (← _)] : Except Fault (List Json)) = answer at hr
      cases answer with
      | error e => cases hr
      | ok records =>
        obtain ⟨line, -, h⟩ := bind_eq_ok.1 hrecord
        obtain ⟨name, -, h⟩ := bind_eq_ok.1 h
        cases h
        exact ⟨line, name, List.mem_singleton.1 hr⟩
    · cases hr
  | _ => cases hr

end ScriptTrace
