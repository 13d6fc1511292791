import ScriptTrace.Proofs.Weaving

/-!
# Surveys of a program

What stands in a program at any depth, collected in the order written. A survey tells what a node contributes in its
context, and in which context its fields are surveyed.

* `Survey`, `Survey.collect` : a survey, and what it collects from a value;
* `Survey.forall_collect` : what holds of every contribution holds of all that is collected;
* `Survey.Flat` : a context in which the parts of records contribute nothing and hand the context on;
* `Survey.Plain` : a flat context that guards hand on as well;
* `Survey.Flat.collect_frame` : what is collected from a field that is framed, bodies and conditions apart;
* `Survey.collect_readyField` : making a field ready adds nothing;
* `Survey.matched_of_rewrites` : what is collected from a value matches what is collected from what it becomes, if a node does.
-/

namespace ScriptTrace

open Probe Rewriting

/-- What is collected from a tree: what a node contributes in its context, and the context of each of its fields; none
where a field is left out. -/
structure Survey (γ α : Type) where
  own : γ → String → Fields Json → List α
  next : γ → String → Fields Json → String → Option γ

namespace Survey

variable {γ α : Type} (S : Survey γ α)

/-- Types of nodes without parts. -/
def leafTypes : List String := ["Identifier", "Literal"]

mutual

/-- What is collected from a value. Positions have no parts, and neither have objects that are no nodes. -/
def collect (c : γ) : Json → List α
  | .arr items => collectItems c items
  | .obj fields =>
    match Fields.type? fields with
    | none => []
    | some type => S.own c type fields ++ if type ∈ leafTypes then [] else collectFields c type fields fields
  | _ => []
termination_by structural j => j

def collectItems (c : γ) : List Json → List α
  | [] => []
  | x :: xs => (if x.isNode then collect c x else []) ++ collectItems c xs
termination_by structural items => items

def collectFields (c : γ) (type : String) (node : Fields Json) : List (String × Json) → List α
  | [] => []
  | (key, x) :: rest =>
    (if key = "loc" ∨ key = "range" then []
      else match S.next c type node key with
        | none => []
        | some c => collect c x) ++ collectFields c type node rest
termination_by structural fields => fields

end

/-- What is collected from a field of a node. -/
def part (c : γ) (type : String) (node : Fields Json) (key : String) (v : Json) : List α :=
  if key = "loc" ∨ key = "range" then []
  else match S.next c type node key with
    | none => []
    | some c => S.collect c v

theorem collectItems_eq_flatMap (c : γ) (items : List Json) :
    S.collectItems c items = items.flatMap fun x => if x.isNode then S.collect c x else [] := by
  induction items with
  | nil => rfl
  | cons x xs ih => rw [collectItems, ih, List.flatMap_cons]

theorem collectFields_eq_flatMap (c : γ) (type : String) (node : Fields Json) : ∀ fields : Fields Json,
    S.collectFields c type node fields = fields.flatMap fun f => S.part c type node f.1 f.2
  | [] => rfl
  | (key, x) :: rest => by
    rw [collectFields, collectFields_eq_flatMap c type node rest, List.flatMap_cons]
    rfl

section Values

variable {S} {c : γ} {type : String} {fields : Fields Json}

theorem collect_arr (items : List Json) :
    S.collect c (.arr items) = items.flatMap fun x => if x.isNode then S.collect c x else [] := by
  rw [collect, collectItems_eq_flatMap]

theorem collect_append (xs ys : List Json) :
    S.collect c (.arr (xs ++ ys)) = S.collect c (.arr xs) ++ S.collect c (.arr ys) := by
  rw [collect_arr, collect_arr, collect_arr, List.flatMap_append]

theorem collect_singleton {x : Json} (h : x.isNode = true) : S.collect c (.arr [x]) = S.collect c x := by
  rw [collect_arr, List.flatMap_cons, List.flatMap_nil, List.append_nil, if_pos h]

theorem collect_obj (htype : Fields.type? fields = some type) : S.collect c (.obj fields) =
    S.own c type fields ++ if type ∈ leafTypes then [] else fields.flatMap fun f => S.part c type fields f.1 f.2 := by
  rw [collect, htype]
  simp only [collectFields_eq_flatMap]

theorem collect_entered (htype : Fields.type? fields = some type) (h : type ∉ leafTypes) : S.collect c (.obj fields) =
    S.own c type fields ++ fields.flatMap fun f => S.part c type fields f.1 f.2 := by
  rw [collect_obj htype, if_neg h]

theorem collect_leaf (htype : Fields.type? fields = some type) (h : type ∈ leafTypes) :
    S.collect c (.obj fields) = S.own c type fields := by
  rw [collect_obj htype, if_pos h, List.append_nil]

theorem collect_eq_nil {v : Json} (hnode : v.isNode = false) (hlist : ∀ items, v ≠ .arr items) : S.collect c v = [] := by
  cases v with
  | arr items => exact absurd rfl (hlist items)
  | obj fields => rw [collect, show Fields.type? fields = none from type?_eq_none hnode]
  | _ => rfl

theorem collect_inert {v : Json} (h : v.isInert = true) : S.collect c v = [] := by
  cases v with
  | arr items =>
    rw [collect_arr, List.flatMap_eq_nil_iff]
    exact fun x hx => if_neg (by simpa using List.all_eq_true.1 h x hx)
  | obj fields => exact collect_eq_nil (by simpa [Json.isInert] using h) fun _ he => nomatch he
  | _ => rfl

@[simp] theorem collect_null : S.collect c .null = [] := rfl

@[simp] theorem collect_bool (b : Bool) : S.collect c (.bool b) = [] := rfl

@[simp] theorem collect_str (s : String) : S.collect c (.str s) = [] := rfl

/-- Items that contribute nothing. -/
theorem collect_silent {items : List Json} (h : ∀ x ∈ items, S.collect c x = []) : S.collect c (.arr items) = [] := by
  rw [collect_arr, List.flatMap_eq_nil_iff]
  intro x hx
  rw [h x hx, ite_self]

theorem part_of_next {key : String} {c' : γ} (hkey : ¬ (key = "loc" ∨ key = "range")) (hnext : S.next c type fields key = some c')
    (v : Json) : S.part c type fields key v = S.collect c' v := by
  rw [part, if_neg hkey, hnext]

theorem part_inert {v : Json} (h : v.isInert = true) (key : String) : S.part c type fields key v = [] := by
  unfold part
  split
  · rfl
  · split
    · rfl
    · exact collect_inert h

/-- A node only one field of which contributes. -/
theorem collect_only (key : String) (htype : Fields.type? fields = some type) (hleaf : type ∉ leafTypes)
    (hnodup : (Fields.names fields).Nodup)
    (hother : ∀ k v, Fields.get? k fields = some v → k ≠ key → S.part c type fields k v = []) :
    S.collect c (.obj fields) = S.own c type fields ++ S.part c type fields key (Json.field key (.obj fields)) := by
  rw [collect_entered htype hleaf, Fields.flatMap_eq_of_key (f := S.part c type fields) key hnodup hother, Json.field, Json.get?]
  cases Fields.get? key fields with
  | some v => rfl
  | none => rw [Option.map_none, Option.getD_none, Option.getD_none, part_inert rfl]

end Values

/-! ## What holds of every contribution -/

section Contributions

variable {S} {I : γ → Prop} {p : Fields Json → Bool} {Q : α → Prop}

/-- What holds of the contributions of every node, in the contexts that can be reached, holds of all that is collected. -/
theorem forall_collect (hnext : ∀ c type fields key c', I c → S.next c type fields key = some c' → I c')
    (hown : ∀ c type fields, I c → Fields.type? fields = some type → (Json.obj fields).everyObject p = true →
      ∀ a ∈ S.own c type fields, Q a)
    (c : γ) (j : Json) (hc : I c) (hj : j.everyObject p = true) : ∀ a ∈ S.collect c j, Q a := by
  induction j using Json.ind generalizing c with
  | scalar j hatom =>
    intro a ha
    cases j <;> first | cases ha | cases hatom
  | arr items ih =>
    intro a ha
    rw [collect_arr] at ha
    obtain ⟨x, hx, ha⟩ := List.mem_flatMap.1 ha
    split at ha
    · exact ih x hx c hc (Json.everyObject_arr.1 hj x hx) a ha
    · cases ha
  | obj fields ih =>
    intro a ha
    cases htype : Fields.type? fields with
    | none =>
      rw [collect, htype] at ha
      cases ha
    | some type =>
      rw [collect_obj htype] at ha
      rcases List.mem_append.1 ha with ha | ha
      · exact hown c type fields hc htype hj a ha
      · split at ha
        · cases ha
        · obtain ⟨f, hf, ha⟩ := List.mem_flatMap.1 ha
          unfold part at ha
          split at ha
          · cases ha
          · split at ha
            · cases ha
            · next c' hc' => exact ih f hf c' (hnext c type fields f.1 c' hc hc') ((Json.everyObject_obj.1 hj).2 f hf) a ha

end Contributions

/-! ## What two contexts have in common -/

section Contexts

variable {S} {C : γ → γ → Prop} {R : α → α → Prop}

theorem forall₂_flatMap {β : Type} {f g : β → List α} {xs : List β} (h : ∀ x ∈ xs, List.Forall₂ R (f x) (g x)) :
    List.Forall₂ R (xs.flatMap f) (xs.flatMap g) := by
  induction xs with
  | nil => exact .nil
  | cons x xs ih =>
    obtain ⟨hx, hxs⟩ := List.forall_mem_cons.1 h
    rw [List.flatMap_cons, List.flatMap_cons]
    exact List.rel_append hx (ih hxs)

/-- When the contributions of every node are related in related contexts, so is all that is collected. -/
theorem forall₂_collect (hnext : ∀ c c' type fields key, C c c' → Option.Rel C (S.next c type fields key) (S.next c' type fields key))
    (hown : ∀ c c' type fields, C c c' → List.Forall₂ R (S.own c type fields) (S.own c' type fields))
    (c c' : γ) (j : Json) (hc : C c c') : List.Forall₂ R (S.collect c j) (S.collect c' j) := by
  induction j using Json.ind generalizing c c' with
  | scalar j hatom => cases j <;> first | exact .nil | cases hatom
  | arr items ih =>
    rw [collect_arr, collect_arr]
    refine forall₂_flatMap fun x hx => ?_
    split
    · exact ih x hx c c' hc
    · exact .nil
  | obj fields ih =>
    cases htype : Fields.type? fields with
    | none =>
      rw [collect, collect, htype]
      exact .nil
    | some type =>
      rw [collect_obj htype, collect_obj htype]
      refine List.rel_append (hown c c' type fields hc) ?_
      split
      · exact .nil
      · refine forall₂_flatMap fun f hf => ?_
        unfold part
        split
        · exact .nil
        · have hrel := hnext c c' type fields f.1 hc
          generalize S.next c type fields f.1 = d at hrel ⊢
          generalize S.next c' type fields f.1 = d' at hrel ⊢
          cases hrel with
          | none => exact .nil
          | some hd => exact ih f hf _ _ hd

end Contexts

/-! ## Probes -/

/-- Types of nodes that records and guards consist of, calls apart, and blocks and clauses, which may have names. -/
def flatTypes : List String :=
  ["Identifier", "Literal", "Property", "ThisExpression", "UnaryExpression", "ObjectExpression", "ArrayExpression",
    "SequenceExpression", "ExpressionStatement", "ThrowStatement", "TryStatement", "VariableDeclaration", "VariableDeclarator"]

def callFields (name : String) (arguments : List Json) : Fields Json :=
  [("type", .str "CallExpression"), ("callee", .ident (.str name)), ("arguments", .arr arguments)]

/-- The arguments of a record. -/
def recordArguments (kind : String) (line : Json) (pairs : List (String × Json)) : List Json :=
  [.objectOf ((.str "kind", .literal (.str kind)) :: (.str "line", .literal line) :: pairs.map fun p => (.str p.1, p.2))]

/-- A context that is handed on unchanged inside of records, and in which only calls contribute; snapshots, recorded returns
and records of variables do not. -/
structure Flat (c : γ) : Prop where
  own : ∀ type ∈ flatTypes, ∀ fields, S.own c type fields = []
  next : ∀ type ∈ "CallExpression" :: flatTypes, ∀ fields key, S.next c type fields key = some c
  quiet : ∀ name ∈ [snapshotName, returnName], ∀ arguments, S.own c "CallExpression" (callFields name arguments) = []
  records : ∀ kind ∈ ["assign", "declare", "init", "return"], ∀ line pairs,
    S.own c "CallExpression" (callFields recordName (recordArguments kind line pairs)) = []

/-- A context that blocks and clauses hand on as well, and in which clauses contribute nothing. -/
structure Plain (c : γ) : Prop extends S.Flat c where
  clauses : ∀ fields, S.own c "CatchClause" fields = []
  inside : ∀ type ∈ ["BlockStatement", "CatchClause"], ∀ fields key, S.next c type fields key = some c

/-- A node that hands the context on. -/
theorem collect_node {S : Survey γ α} {c : γ} {type : String} {fields : Fields Json} (htype : Fields.type? fields = some type)
    (hnext : ∀ key, S.next c type fields key = some c) (hleaf : type ∉ leafTypes) :
    S.collect c (.obj fields) = S.own c type fields ++
      fields.flatMap fun f => if f.1 = "loc" ∨ f.1 = "range" then [] else S.collect c f.2 := by
  rw [collect_entered htype hleaf]
  refine congrArg (_ ++ List.flatMap · fields) (funext fun f => ?_)
  rw [part, hnext]

namespace Flat

variable {S} {c : γ} (h : S.Flat c)

include h

theorem collect_ident (name : Json) : S.collect c (.ident name) = [] := by
  have htype : (Json.ident name).type? = some "Identifier" := rfl
  exact (collect_leaf htype (by decide)).trans (h.own _ (by decide) _)

theorem collect_literal (value : Json) : S.collect c (.literal value) = [] := by
  have htype : (Json.literal value).type? = some "Literal" := rfl
  exact (collect_leaf htype (by decide)).trans (h.own _ (by decide) _)

theorem collect_callOf (name : String) (arguments : List Json) : S.collect c (.callOf name arguments) =
    S.own c "CallExpression" (callFields name arguments) ++ S.collect c (.arr arguments) := by
  have htype : Fields.type? (callFields name arguments) = some "CallExpression" := rfl
  have hcall := collect_node htype (h.next "CallExpression" (by decide) _) (by decide)
  rw [show Json.callOf name arguments = .obj (callFields name arguments) from rfl, hcall]
  simp [callFields, h.collect_ident]

theorem collect_flat (type : String) {fields : Fields Json} (htype : Fields.type? fields = some type) (hmem : type ∈ flatTypes)
    (hleaf : type ∉ leafTypes) : S.collect c (.obj fields) =
      fields.flatMap fun f => if f.1 = "loc" ∨ f.1 = "range" then [] else S.collect c f.2 := by
  rw [collect_node htype (h.next type (List.mem_cons_of_mem _ hmem) _) hleaf, h.own type hmem, List.nil_append]

theorem collect_expressionStatement (e : Json) : S.collect c (.expressionStatement e) = S.collect c e := by
  rw [Json.expressionStatement, h.collect_flat "ExpressionStatement" rfl (by decide) (by decide)]
  simp

theorem collect_sequenceOf (e probe : Json) : S.collect c (sequenceOf e probe) = S.collect c (.arr [e, probe]) := by
  rw [sequenceOf, h.collect_flat "SequenceExpression" rfl (by decide) (by decide)]
  simp

theorem collect_arrayOf (elements : Json) : S.collect c (arrayOf elements) = S.collect c elements := by
  rw [arrayOf, h.collect_flat "ArrayExpression" rfl (by decide) (by decide)]
  simp

theorem collect_voidZero : S.collect c .voidZero = [] := by
  rw [Json.voidZero, h.collect_flat "UnaryExpression" rfl (by decide) (by decide)]
  simp [h.collect_literal]

theorem collect_property (key value : Json) : S.collect c (.property key value) = S.collect c value := by
  rw [Json.property, h.collect_flat "Property" rfl (by decide) (by decide)]
  simp [h.collect_literal]

theorem collect_objectOf (pairs : List (Json × Json)) (hvalues : ∀ p ∈ pairs, S.collect c p.2 = []) :
    S.collect c (.objectOf pairs) = [] := by
  rw [Json.objectOf, h.collect_flat "ObjectExpression" rfl (by decide) (by decide)]
  have hproperties : S.collect c (.arr (pairs.map fun p => Json.property p.1 p.2)) = [] := collect_silent fun x hx => by
    obtain ⟨p, hp, rfl⟩ := List.mem_map.1 hx
    rw [h.collect_property, hvalues p hp]
  simpa using hproperties

theorem collect_snapshot {e : Json} (he : S.collect c e = []) : S.collect c (snapshot e) = [] := by
  rw [snapshot, h.collect_callOf, h.quiet _ (by simp), List.nil_append]
  exact collect_silent fun x hx => by rw [List.mem_singleton.1 hx, he]

theorem collect_variable {t : Target} (ht : t.IsVariable) : S.collect c (snapshot t.expression) = [] := by
  refine h.collect_snapshot ?_
  rcases ht with ht | ⟨name, ht⟩
  · rw [ht, Json.thisNode, h.collect_flat "ThisExpression" rfl (by decide) (by decide)]
    simp
  · rw [ht, h.collect_ident]

/-- The contribution of a record is that of the call. -/
theorem collect_record (kind : String) (line : Json) (pairs : List (String × Json)) (hpairs : ∀ p ∈ pairs, S.collect c p.2 = []) :
    S.collect c (record kind line pairs) = S.own c "CallExpression" (callFields recordName (recordArguments kind line pairs)) := by
  have harguments : S.collect c (.arr (recordArguments kind line pairs)) = [] := collect_silent fun x hx => by
    rw [List.mem_singleton.1 hx]
    refine h.collect_objectOf _ fun p hp => ?_
    rcases List.mem_cons.1 hp with rfl | hp
    · exact h.collect_literal _
    rcases List.mem_cons.1 hp with rfl | hp
    · exact h.collect_literal _
    obtain ⟨q, hq, rfl⟩ := List.mem_map.1 hp
    exact hpairs q hq
  rw [show record kind line pairs = .callOf recordName (recordArguments kind line pairs) from rfl, h.collect_callOf, harguments,
    List.append_nil]

theorem collect_statement (kind : String) (line : Json) (pairs : List (String × Json))
    (hpairs : ∀ p ∈ pairs, S.collect c p.2 = []) : S.collect c (Probe.statement kind line pairs) =
      S.own c "CallExpression" (callFields recordName (recordArguments kind line pairs)) := by
  rw [Probe.statement, h.collect_expressionStatement, h.collect_record kind line pairs hpairs]

theorem collect_locals {kind : String} (hkind : kind ∈ ["assign", "declare"]) (line : Json) {targets : List Target}
    (ht : ∀ t ∈ targets, t.IsVariable) : S.collect c (locals kind line targets) = [] := by
  have hkind : kind ∈ ["assign", "declare", "init", "return"] := by
    simp only [List.mem_cons, List.not_mem_nil, or_false] at hkind ⊢
    exact hkind.elim .inl fun h => .inr (.inl h)
  rw [locals, h.collect_record, h.records kind hkind]
  intro p hp
  rw [List.mem_singleton.1 hp]
  refine h.collect_objectOf _ fun q hq => ?_
  obtain ⟨t, hmem, rfl⟩ := List.mem_map.1 hq
  exact h.collect_variable (ht t hmem)

theorem collect_returned (line : Json) : S.collect c (returned line) = [] := by
  rw [returned, h.collect_statement, h.records _ (by simp)]
  intro p hp
  rw [List.mem_singleton.1 hp, h.collect_snapshot h.collect_voidZero]

theorem collect_literals (kind : String) (line : Json) (pairs : List (String × Json)) :
    S.collect c (Probe.statement kind line (pairs.map fun p => (p.1, .literal p.2))) =
      S.own c "CallExpression" (callFields recordName (recordArguments kind line (pairs.map fun p => (p.1, .literal p.2)))) := by
  refine h.collect_statement _ _ _ fun p hp => ?_
  obtain ⟨q, -, rfl⟩ := List.mem_map.1 hp
  exact h.collect_literal q.2

/-- The declarator that carries records contributes nothing. -/
theorem collect_initDeclarator (n : Nat) {probes : List Json} (hprobes : ∀ p ∈ probes, S.collect c p = []) :
    S.collect c (initDeclarator n probes) = [] := by
  have hcarried (init : Json) : S.collect c (.obj [("type", .str "VariableDeclarator"), ("id", .ident (.str (initName n))),
      ("init", init)]) = S.collect c init := by
    rw [h.collect_flat "VariableDeclarator" rfl (by decide) (by decide)]
    simp [h.collect_ident]
  unfold initDeclarator
  split
  · next probe => rw [hcarried, hprobes probe (by simp)]
  · rw [hcarried, h.collect_flat "SequenceExpression" rfl (by decide) (by decide)]
    simp [collect_silent hprobes]

/-- A call of the runtime around an expression. -/
theorem collect_wrapped (name : String) (literals : List Json) {e : Json} (he : ∀ items, e ≠ .arr items) :
    S.collect c (wrapped name (literals.map .literal) e) =
      S.own c "CallExpression" (callFields name (literals.map .literal ++ [e])) ++ S.collect c e := by
  have hliterals : S.collect c (.arr (literals.map Json.literal)) = [] := collect_silent fun x hx => by
    obtain ⟨value, -, rfl⟩ := List.mem_map.1 hx
    exact h.collect_literal value
  rw [wrapped, h.collect_callOf, collect_append, hliterals, List.nil_append, collect_arr]
  cases hnode : e.isNode with
  | true => simp [hnode]
  | false => simp [hnode, collect_eq_nil hnode he]

/-- An expression followed by a record. -/
theorem collect_followed {e probe : Json} (he : ∀ items, e ≠ .arr items) (hprobe : S.collect c probe = []) :
    S.collect c (sequenceOf e probe) = S.collect c e := by
  rw [h.collect_sequenceOf, collect_arr, List.flatMap_cons, List.flatMap_cons, hprobe]
  cases hnode : e.isNode with
  | true => simp
  | false => simp [collect_eq_nil hnode he]

/-- A declaration with one more declarator that contributes nothing. -/
theorem collect_declarations {fields : Fields Json} (htype : Fields.type? fields = some "VariableDeclaration") {items : List Json}
    (hget : Fields.get? "declarations" fields = some (.arr items)) {declarator : Json} (hd : S.collect c declarator = []) :
    S.collect c (.obj (Fields.set "declarations" (.arr (items ++ [declarator])) fields)) = S.collect c (.obj fields) := by
  have htype' : Fields.type? (Fields.set "declarations" (.arr (items ++ [declarator])) fields) = some "VariableDeclaration" :=
    (Fields.type?_set (by decide) _ _).trans htype
  have hitems : S.collect c (.arr (items ++ [declarator])) = S.collect c (.arr items) := by
    have hsilent : S.collect c (.arr [declarator]) = [] := collect_silent fun x hx => by rw [List.mem_singleton.1 hx, hd]
    rw [collect_append, hsilent, List.append_nil]
  rw [h.collect_flat _ htype' (by decide) (by decide), h.collect_flat _ htype (by decide) (by decide)]
  refine Fields.flatMap_set (f := fun key v => if key = "loc" ∨ key = "range" then [] else S.collect c v)
    (fun w hw => ?_) fun hnone => ?_
  · cases hget.symm.trans hw
    simpa using hitems
  · cases hget.symm.trans hnone

/-! ## Guards -/

theorem collect_called (line name : Json) (params : List Json) : S.collect c (called line name params) =
    S.own c "CallExpression" (callFields recordName (recordArguments "call" line
      [("name", .literal name), ("args", .objectOf (params.map fun p => (p, snapshot (.ident p))))])) := by
  refine h.collect_statement _ _ _ fun p hp => ?_
  simp only [List.mem_cons, List.not_mem_nil, or_false] at hp
  rcases hp with rfl | rfl
  · exact h.collect_literal name
  · refine h.collect_objectOf _ fun q hq => ?_
    obtain ⟨param, -, rfl⟩ := List.mem_map.1 hq
    exact h.collect_variable (t := .named param) (.named param)

theorem collect_closed (statements : List Json) (endLine : Json) :
    S.collect c (.arr (closed statements endLine)) = S.collect c (.arr statements) := by
  unfold closed
  split
  · rfl
  · have hsilent : S.collect c (.arr [returned endLine]) = [] := collect_silent fun x hx => by
      rw [List.mem_singleton.1 hx, h.collect_returned]
    rw [collect_append, hsilent, List.append_nil]

/-- The statements of a function that was guarded, with the block that is tried. -/
theorem collect_guardedBody (line endLine name : Json) (params statements : List Json) :
    S.collect c (.arr (functionBody line endLine name params statements)) =
      S.collect c (.arr (statements.takeWhile isDirective)) ++ (S.collect c (called line name params) ++
        (S.collect c (blockOf (closed (statements.dropWhile isDirective) endLine)) ++ S.collect c (handler endLine name))) := by
  have hguarded (statements : List Json) : S.collect c (guarded statements endLine name) =
      S.collect c (blockOf statements) ++ S.collect c (handler endLine name) := by
    rw [guarded, h.collect_flat "TryStatement" rfl (by decide) (by decide)]
    simp
  rw [functionBody, collect_append, collect_arr [_, _], List.flatMap_cons, List.flatMap_cons, List.flatMap_nil, List.append_nil,
    if_pos (show (called line name params).isNode = true from rfl),
    if_pos (show (guarded (closed (statements.dropWhile isDirective) endLine) endLine name).isNode = true from rfl), hguarded]

end Flat

namespace Plain

variable {S} {c : γ} (h : S.Plain c)

include h

theorem collect_blockOf (statements : List Json) : S.collect c (blockOf statements) =
    S.own c "BlockStatement" (blockFields statements) ++ S.collect c (.arr statements) := by
  have htype : Fields.type? (blockFields statements) = some "BlockStatement" := rfl
  have hblock := collect_node htype (h.inside "BlockStatement" (by decide) _) (by decide)
  rw [show blockOf statements = .obj (blockFields statements) from rfl, hblock]
  simp [blockFields]

/-- The handler of a guard has one block, with the record of an exception. -/
theorem collect_handler (line name : Json) : S.collect c (handler line name) =
    S.own c "BlockStatement" (handlerFields line name) ++ S.collect c (thrown line name) := by
  have hrethrow : S.collect c (.obj [("type", .str "ThrowStatement"), ("argument", .ident (.str caughtName))]) = [] := by
    rw [h.collect_flat "ThrowStatement" rfl (by decide) (by decide)]
    simp [h.collect_ident]
  have hstatements : S.collect c (.arr [thrown line name,
      .obj [("type", .str "ThrowStatement"), ("argument", .ident (.str caughtName))]]) = S.collect c (thrown line name) := by
    rw [collect_arr, List.flatMap_cons, List.flatMap_cons, hrethrow, ite_self, List.flatMap_nil, List.append_nil, List.append_nil]
    exact if_pos rfl
  have hblock : S.collect c (.obj (handlerFields line name)) =
      S.own c "BlockStatement" (handlerFields line name) ++ S.collect c (thrown line name) :=
    (h.collect_blockOf _).trans (congrArg (_ ++ ·) hstatements)
  have hhandler : handler line name = .obj [("type", .str "CatchClause"), ("param", .ident (.str caughtName)),
      ("body", .obj (handlerFields line name))] := rfl
  rw [hhandler, collect_node rfl (h.inside "CatchClause" (by decide) _) (by decide), h.clauses]
  simp [h.collect_ident, hblock]

/-- The statements of a function that was guarded: its directives, the record of the call, what is tried, and the
handler. -/
theorem collect_functionBody (line endLine name : Json) (params statements : List Json) :
    S.collect c (.arr (functionBody line endLine name params statements)) =
      S.collect c (.arr (statements.takeWhile isDirective)) ++ (S.collect c (called line name params) ++
        (S.own c "BlockStatement" (blockFields (closed (statements.dropWhile isDirective) endLine)) ++
          (S.collect c (.arr (statements.dropWhile isDirective)) ++ S.collect c (handler endLine name)))) := by
  rw [h.collect_guardedBody, h.collect_blockOf, h.collect_closed, List.append_assoc]

end Plain

/-! ## Frames -/

section Frames

variable {S} {c : γ} {code : Option String} {classes : List Json} {up : Option Json} {type : String} {fields made : Fields Json}

/-- What is collected from a field that is framed, unless it is a condition, a body or a callee that is redirected. -/
theorem Flat.collect_frame (h : S.Flat c) {k : FrameKind} {w o : Json} (hframe : Rewriting.Frame code classes up type fields made k w o)
    (hproper : (Json.obj fields).Proper) (hkind : k ∉ [.test, .iteration, .counted, .function])
    (hconsole : k = .callee → Visit.isConsole (Json.field "callee" (.obj fields)) ≠ .ok true)
    (hlist : k ∉ [.same, .arguments] → ∀ items, w ≠ .arr items)
    (hinit : k = .init → w.type? = (Json.field "init" (.obj fields)).type?) : S.collect c o = S.collect c w := by
  cases hframe with
  | same | callee | arguments | noInit | initNothing | noUpdate | updateNothing => rfl
  | test | uncounted | iteration | counted | function => simp at hkind
  | printer _ hprints => exact absurd hprints (hconsole rfl)
  | result line _ hline =>
    cases hnull : w.isNull with
    | true =>
      obtain rfl : w = .null := by cases w <;> first | rfl | cases hnull
      exact (h.collect_wrapped returnName [line] (e := .voidZero) (by rintro _ ⟨⟩)).trans (by
        rw [h.quiet _ (by simp), h.collect_voidZero, collect_null, List.append_nil])
    | false =>
      exact (h.collect_wrapped returnName [line] (e := w) (hlist (by simp))).trans (by
        rw [h.quiet _ (by simp), List.nil_append])
  | printed line _ hprints hline =>
    rw [collect_arr, List.flatMap_cons, List.flatMap_cons, h.collect_literal, ite_self, List.nil_append, List.flatMap_nil,
      List.append_nil, if_pos (show (arrayOf w).isNode = true from rfl), h.collect_arrayOf]
  | initDeclared line _ n names hline htype =>
    cases w with
    | obj wfields =>
      cases hv : Fields.get? "declarations" wfields with
      | none => rw [onList, hv]
      | some v =>
        cases v with
        | arr items =>
          rw [onList_obj _ hv]
          refine h.collect_declarations ((hinit rfl).trans htype) hv (h.collect_initDeclarator n fun p hp => ?_)
          obtain ⟨x, -, rfl⟩ := List.mem_map.1 hp
          exact h.collect_locals (by simp) _ fun t ht => List.mem_singleton.1 ht ▸ .named x
        | _ => rw [onList, hv]
    | _ => rfl
  | initAssigned line _ targets hline htype htargets =>
    exact h.collect_followed (hlist (by simp)) (h.collect_locals (by simp) _
      (isVariable_of_writtenTargets _ (hproper.field_of _) htargets))
  | initShown line _ text =>
    refine h.collect_followed (hlist (by simp)) ((h.collect_record _ _ _ fun p hp => ?_).trans (h.records _ (by simp) _ _))
    rw [List.mem_singleton.1 hp, h.collect_literal]
  | updated line _ targets hline htargets =>
    exact h.collect_followed (hlist (by simp)) (h.collect_locals (by simp) _
      (isVariable_of_writtenTargets _ (hproper.field_of _) htargets))

/-- The fields a node gets when it is completed contribute nothing. -/
theorem flatMap_completed (hproper : (Json.obj fields).Proper) (htype : Fields.type? fields = some type) :
    (completed type fields).flatMap (fun p => S.part c type fields p.1 p.2) = fields.flatMap fun p => S.part c type fields p.1 p.2 := by
  unfold completed
  split
  · rw [List.flatMap_append]
    exact (congrArg (_ ++ ·) ((List.append_nil _).trans (part_inert rfl _))).trans (List.append_nil _)
  · split
    · next h =>
      have hscalar : ∀ t ∈ functionTypes, ∀ row ∈ Grammar.table, t ∈ row.1 → ∀ slot ∈ row.2,
          slot.1 = "expression" → Json.isScalar slot.2 = true := by decide
      refine Fields.flatMap_set (f := S.part c type fields) (fun v hv => ?_) fun _ => part_inert rfl _
      have hinert : v.isInert = true := hproper.inert htype hv (by decide) fun slots slot hshape hslot => by
        obtain ⟨row, hrow, hmem, rfl⟩ := ofGroup_mem_types hshape
        exact hscalar type h.1 row hrow hmem _ (Fields.mem_of_get? hslot) rfl
      rw [part_inert hinert, part_inert rfl]
    · rfl

/-- A callee that is redirected contributes nothing, unless names or members do. -/
theorem collect_console {callee : Fields Json} {ctype : String} (hproper : (Json.obj callee).Proper)
    (htype : Fields.type? callee = some ctype) (h : Visit.isConsole (.obj callee) = .ok true)
    (hown : S.own c "MemberExpression" callee = [])
    (hnames : ∀ key c', S.next c "MemberExpression" callee key = some c' → ∀ leaf, S.own c' "Identifier" leaf = []) :
    S.collect c (.obj callee) = [] := by
  obtain ⟨rfl, hparts⟩ := parts_of_console hproper htype h
  rw [collect_entered htype (by decide), hown, List.nil_append, List.flatMap_eq_nil_iff]
  intro f hf
  by_cases hposition : f.1 = "loc" ∨ f.1 = "range"
  · exact if_pos hposition
  rcases hparts f.1 f.2 (Fields.get?_of_mem hproper.nodup hf) hposition with hinert | ⟨leaf, he, hleaf⟩
  · exact part_inert hinert f.1
  · cases hnext : S.next c "MemberExpression" callee f.1 with
    | none => rw [part, if_neg hposition, hnext]
    | some c' => rw [part_of_next hposition hnext, he, collect_leaf hleaf (by decide), hnames f.1 c' hnext leaf]

/-! ## Blocks -/

/-- The fields of a block but for its list hold no nodes. -/
theorem inert_of_block {block : Fields Json} (hproper : (Json.obj block).Proper)
    (htype : Fields.type? block = some "BlockStatement") {key : String} {v : Json} (hv : Fields.get? key block = some v)
    (hkey : key ≠ "body") (hposition : ¬ (key = "loc" ∨ key = "range")) : v.isInert = true := by
  refine hproper.inert htype hv (not_or.1 hposition) fun slots slot hshape hslot => ?_
  cases hshape
  rw [Fields.get?, if_neg (Ne.symm hkey)] at hslot
  cases hslot

theorem collect_block {block : Fields Json} {c' : γ} (hproper : (Json.obj block).Proper)
    (htype : Fields.type? block = some "BlockStatement") (hnext : S.next c "BlockStatement" block "body" = some c') :
    S.collect c (.obj block) = S.own c "BlockStatement" block ++ S.collect c' (Json.field "body" (.obj block)) := by
  rw [collect_only "body" htype (by decide) hproper.nodup fun k v hv hk => ?_, part_of_next (by decide) hnext]
  by_cases hposition : k = "loc" ∨ k = "range"
  · exact if_pos hposition
  · exact part_inert (inert_of_block hproper htype hv hk hposition) k

/-- A rewritten block whatever is put into its list. -/
theorem collect_rewrittenBlock {name : Json} {block out : Fields Json} {c' : γ} (items : List Json)
    (hnode : RewrittenNode code classes up "BlockStatement" name block made out)
    (hnext : S.next c "BlockStatement" (Fields.set "body" (.arr items) out) "body" = some c') :
    S.collect c (.obj (Fields.set "body" (.arr items) out)) =
      S.own c "BlockStatement" (Fields.set "body" (.arr items) out) ++ S.collect c' (.arr items) := by
  obtain ⟨ss, ts, -, hts, -⟩ := hnode.exists_weave "body" rfl
  have htype : Fields.type? (Fields.set "body" (.arr items) out) = some "BlockStatement" :=
    (Fields.type?_set (by decide) _ _).trans hnode.type?_out
  have hnodup : (Fields.names (Fields.set "body" (.arr items) out)).Nodup := by
    rw [Fields.names_set_of_mem (Fields.mem_names_of_get? hts)]
    exact hnode.nodup_out
  rw [collect_only "body" htype (by decide) hnodup fun k v hv hk => ?_, part_of_next (by decide) hnext,
    Json.field_of_get? (by rw [Fields.get?_set, if_pos rfl])]
  by_cases hposition : k = "loc" ∨ k = "range"
  · exact if_pos hposition
  -- a field that is no position is kept, and was inert before
  rw [Fields.get?_set, if_neg (Ne.symm hk)] at hv
  have hun : Unframed "BlockStatement" := by decide
  have hnames : Fields.names block = Fields.names out := by rw [hnode.names_out, hnode.names_made, hun.prepared_eq]
  obtain ⟨v', hv'⟩ := Fields.exists_get?_of_names hnames hv
  obtain ⟨w, hprepared, hw, ho⟩ := Unframed.exists_child hun hnode.names_made hnode.names_out hnode.frame hv'
  have hrw := hnode.field _ _ _ hprepared hw
  rw [mode_block, if_neg hk] at hrw
  cases hrw
  cases hv.symm.trans ho
  exact part_inert (inert_of_block hnode.proper hnode.type hv' hk hposition) k

end Frames

/-! ## Fields that are made ready -/

/-- Types of nodes that are put around a field to make it ready. -/
def madeTypes : List String := ["BlockStatement", "ReturnStatement"]

/-- Making a field ready adds nothing where blocks and returns contribute nothing and hand the context on. -/
theorem collect_readyField {S : Survey γ α} {c : γ} (hown : ∀ t ∈ madeTypes, ∀ fields, S.own c t fields = [])
    (hnext : ∀ t ∈ madeTypes, ∀ fields key, S.next c t fields key = some c) (type key : String) (v : Json) :
    S.collect c (readyField type key v) = S.collect c v := by
  have hblock {v : Json} (hv : v.isNode = true) : S.collect c (blockOf [v]) = S.collect c v := by
    have htype : Fields.type? (blockFields [v]) = some "BlockStatement" := rfl
    rw [show blockOf [v] = .obj (blockFields [v]) from rfl, collect_node htype (hnext _ (by decide) _) (by decide),
      hown _ (by decide)]
    simp [blockFields, collect_singleton hv]
  have hreturn : S.collect c (returnOf v) = S.collect c v := by
    have htype : Fields.type? (returnFields v) = some "ReturnStatement" := rfl
    rw [show returnOf v = .obj (returnFields v) from rfl, collect_node htype (hnext _ (by decide) _) (by decide), hown _ (by decide)]
    simp [returnFields]
  have hasBlock : S.collect c (asBlock v) = S.collect c v := by
    unfold asBlock
    split
    · next h => exact hblock (Bool.and_eq_true_iff.1 h).1
    · rfl
  have hbodyBlock : S.collect c (bodyBlock v) = S.collect c v := by
    by_cases h : v.type? = some "BlockStatement"
    · rw [bodyBlock_of_block h]
    · rw [bodyBlock_of_other h, hblock rfl, hreturn]
  unfold readyField
  split
  · exact hasBlock
  · split
    · exact hasBlock
    · split
      · exact hbodyBlock
      · rfl

/-! ## Lists of statements -/

section Lists

variable {S} {c : γ}

/-- The records after a statement contribute nothing. -/
theorem Flat.collect_writesAfter (h : S.Flat c) (s : Json) : S.collect c (.arr s.writesAfter) = [] := collect_silent fun r hr => by
  obtain ⟨kind, hkind, line, targets, htargets, rfl⟩ := exists_of_mem_writesAfter hr
  rw [localsStatement, h.collect_expressionStatement, h.collect_locals hkind line htargets]

/-- A woven list has what its statements became, and the records of classes. -/
theorem Flat.collect_weave (h : S.Flat c) (ss ts : List Json) : S.collect c (.arr (weave ss ts)) =
    (ss.zip ts).flatMap fun p => S.collect c (.arr p.1.declares) ++ S.collect c (.arr [p.2]) := by
  rw [collect_arr, weave, List.flatMap_assoc]
  refine congrArg (List.flatMap · _) (funext fun p => ?_)
  rw [← collect_arr, show p.1.declares ++ p.2 :: p.1.writesAfter = p.1.declares ++ ([p.2] ++ p.1.writesAfter) from rfl,
    collect_append, collect_append, h.collect_writesAfter, List.append_nil]

/-- Where records contribute nothing, a woven list contributes what its statements became. -/
theorem collect_woven (hbefore : ∀ s : Json, S.collect c (.arr s.declares) = []) (hafter : ∀ s : Json, S.collect c (.arr s.writesAfter) = []) :
    ∀ {ss ts : List Json}, ss.length = ts.length → S.collect c (.arr (weave ss ts)) = S.collect c (.arr ts)
  | [], [], _ => rfl
  | s :: ss, t :: ts, hlen => by
    have hcons : weave (s :: ss) (t :: ts) = s.declares ++ ([t] ++ (s.writesAfter ++ weave ss ts)) := by simp [weave]
    rw [hcons, collect_append, collect_append, collect_append, hbefore, hafter, collect_woven hbefore hafter (Nat.succ.inj hlen),
      List.nil_append, List.nil_append, ← collect_append, List.singleton_append]

theorem Flat.collect_woven (h : S.Flat c) (hcalls : ∀ fields, S.own c "CallExpression" fields = []) {ss ts : List Json}
    (hlen : ss.length = ts.length) : S.collect c (.arr (weave ss ts)) = S.collect c (.arr ts) := by
  refine Survey.collect_woven (fun s => collect_silent fun r hr => ?_) h.collect_writesAfter hlen
  obtain ⟨-, line, name, rfl⟩ := exists_of_mem_declares hr
  exact (h.collect_literals "class" line [("className", name)]).trans (hcalls _)

end Lists

/-! ## Fields that are kept -/

/-- Slots that hold names and literals only. -/
def isLeafSlot : Slot → Bool
  | .node types | .optional types => types.all leafTypes.contains
  | _ => false

/-- What stands in a slot for names and literals. -/
theorem exists_leaf {slot : Slot} {v : Json} (hslot : isLeafSlot slot = true) (hfits : slot.fits (some v) = true) :
    v.isInert = true ∨ ∃ leaf t, v = .obj leaf ∧ Fields.type? leaf = some t ∧ t ∈ leafTypes := by
  have hall {types : List String} (h : types.all leafTypes.contains = true) {t : String} (ht : t ∈ types) : t ∈ leafTypes := by
    simpa using List.all_eq_true.1 h t ht
  cases slot with
  | node types =>
    obtain ⟨leaf, t, he, htype, hmem⟩ := Json.fits_node hfits
    exact .inr ⟨leaf, t, Option.some.inj he, htype, hall hslot hmem⟩
  | optional types =>
    rcases Json.fits_optional hfits with he | he | ⟨leaf, t, he, htype, hmem⟩
    · cases he
    · cases he
      exact .inl rfl
    · exact .inr ⟨leaf, t, Option.some.inj he, htype, hall hslot hmem⟩
  | _ => cases hslot

/-- A key that is not computed is written out. -/
theorem leaf_of_key {fields : Fields Json} {type : String} {v : Json} (hproper : (Json.obj fields).Proper)
    (htype : Fields.type? fields = some type) (hmember : type ∈ ["MethodDefinition", "Property"])
    (hplain : isComputed fields = false) (hv : Fields.get? "key" fields = some v) :
    ∃ leaf t, v = .obj leaf ∧ Fields.type? leaf = some t ∧ t ∈ leafTypes := by
  obtain ⟨slots, hshape⟩ := hproper.exists_shape htype
  have hconsistent := hproper.consistent htype hshape
  have hkey : Grammar.isWrittenKey v = true := by
    simp only [List.mem_cons, List.not_mem_nil, or_false] at hmember
    rw [isComputed] at hplain
    rcases hmember with rfl | rfl <;> simpa [Grammar.isConsistent, hplain, hv] using hconsistent
  rw [Grammar.isWrittenKey, Bool.or_eq_true, Bool.and_eq_true] at hkey
  rcases hkey with hname | ⟨hliteral, -⟩
  · obtain ⟨leaf, t, rfl, hleaf, ht⟩ := Json.isOneOf_iff.1 hname
    exact ⟨leaf, t, rfl, hleaf, List.mem_cons.2 (.inl (List.mem_singleton.1 ht))⟩
  · obtain ⟨leaf, t, rfl, hleaf, ht⟩ := Json.isOneOf_iff.1 hliteral
    exact ⟨leaf, t, rfl, hleaf, List.mem_cons_of_mem _ ht⟩

/-- A field that is kept holds a name or a literal, or no nodes at all, unless it is the pattern of a declarator. -/
theorem leaf_of_kept {fields : Fields Json} {type key : String} {v : Json} (hproper : (Json.obj fields).Proper)
    (htype : Fields.type? fields = some type) (hv : Fields.get? key fields = some v) (hmode : mode type fields key = .kept)
    (hposition : ¬ (key = "loc" ∨ key = "range")) (hid : ¬ (type = "VariableDeclarator" ∧ key = "id")) :
    v.isInert = true ∨ ∃ leaf t, v = .obj leaf ∧ Fields.type? leaf = some t ∧ t ∈ leafTypes := by
  have hmembers : ∀ t ∈ ["MethodDefinition", "Property"], ∀ row ∈ Grammar.table, t ∈ row.1 → ∀ slot ∈ row.2,
      slot.1 ∈ ["key", "value"] ∨ Json.isScalar slot.2 = true := by decide
  have hothers : ∀ g ∈ visitTable, ∀ t ∈ g.1, ∀ row ∈ Grammar.table, t ∈ row.1 → ∀ slot ∈ row.2,
      slot.1 ∈ g.2 ∨ (t = "VariableDeclarator" ∧ slot.1 = "id") ∨ Json.isScalar slot.2 = true ∨ isLeafSlot slot.2 = true := by
    decide
  obtain ⟨slots, hshape⟩ := hproper.exists_shape htype
  obtain ⟨row, hrow, hmem, rfl⟩ := ofGroup_mem_types hshape
  have hscalar (h : ∀ slot, Fields.get? key row.2 = some slot → Json.isScalar slot = true) : v.isInert = true :=
    hproper.inert htype hv (not_or.1 hposition) fun slots' slot hshape' hslot => by
      cases hshape.symm.trans hshape'
      exact h slot hslot
  cases hkeys : visitedFields type fields with
  | none =>
    rw [mode, hkeys, if_neg hposition] at hmode
    split at hmode <;> cases hmode
  | some keys =>
    have hnot : key ∉ keys := by
      intro hk
      simp only [mode, hkeys, if_pos hk] at hmode
      split at hmode <;> cases hmode
    by_cases hmember : type ∈ ["MethodDefinition", "Property"]
    · rw [visitedFields, if_pos hmember] at hkeys
      cases hkeys
      by_cases hkey : key = "key"
      · -- a key that is not visited is not computed
        subst hkey
        have hplain : isComputed fields = false := by
          cases hc : isComputed fields with
          | false => rfl
          | true => rw [hc] at hnot; simp at hnot
        exact .inr (leaf_of_key hproper htype hmember hplain hv)
      · refine .inl (hscalar fun slot hslot => (hmembers type hmember row hrow hmem _ (Fields.mem_of_get? hslot)).resolve_left ?_)
        intro hk
        simp only [List.mem_cons, List.not_mem_nil, or_false] at hk
        refine hnot (hk.resolve_left hkey ▸ ?_)
        split <;> simp
    · rw [visitedFields, if_neg hmember] at hkeys
      obtain ⟨g, hg, hgmem, rfl⟩ := ofGroup_mem_types hkeys
      cases hslot : Fields.get? key row.2 with
      | none => exact .inl (hscalar fun slot h => by cases hslot.symm.trans h)
      | some slot =>
        rcases hothers g hg type hgmem row hrow hmem _ (Fields.mem_of_get? hslot) with h | h | h | h
        · exact absurd h hnot
        · exact absurd h hid
        · exact .inl (hscalar fun slot' h' => by cases hslot.symm.trans h'; exact h)
        · have hfits := hproper.fits _ htype hshape hslot
          rw [hv] at hfits
          exact exists_leaf h hfits

/-- A field that is kept contributes nothing where names and literals do not, unless it is the pattern of a declarator. -/
theorem collect_kept {S : Survey γ α} {c : γ} (hleaves : ∀ t ∈ leafTypes, ∀ leaf, S.own c t leaf = []) {fields : Fields Json}
    {type key : String} {v : Json} (hproper : (Json.obj fields).Proper) (htype : Fields.type? fields = some type)
    (hv : Fields.get? key (completed type fields) = some v) (hmode : mode type fields key = .kept)
    (hposition : ¬ (key = "loc" ∨ key = "range")) (hid : ¬ (type = "VariableDeclarator" ∧ key = "id")) : S.collect c v = [] := by
  rcases get?_of_completed hv with hv | rfl | rfl
  · rcases leaf_of_kept hproper htype hv hmode hposition hid with h | ⟨leaf, t, rfl, hleaf, ht⟩
    · exact collect_inert h
    · rw [collect_leaf hleaf ht, hleaves t ht]
  · rfl
  · rfl

/-! ## What becomes of values -/

section Rewritten

variable {ι : Type} {S : Survey γ α} {before after : ι → γ} {R : α → α → Prop} {E : α → Prop} {code : Option String}
  {classes : List Json} {up : Option Json}

/-- What is shown by induction of a value and what it becomes, each in a context of its own: what is collected from them
matches, and so does what is collected from the list of a block. -/
def Matched (S : Survey γ α) (before after : ι → γ) (R : α → α → Prop) (E : α → Prop) (m : Mode) (v w : Json) : Prop :=
  m ≠ .kept → ∀ i, Matches R E (S.collect (before i) v) (S.collect (after i) w) ∧
    (v.type? = some "BlockStatement" →
      Matches R E (S.collect (before i) (v.field "body")) (S.collect (after i) (w.field "body")))

/-- Items that are rewritten one by one. -/
theorem Matched.items {vs ws : List Json} (hlen : vs.length = ws.length)
    (h : ∀ p ∈ vs.zip ws, p.1.isNode = true → p.2.isNode = true ∧ S.Matched before after R E .visited p.1 p.2)
    (hother : ∀ p ∈ vs.zip ws, p.1.isNode = false → p.2 = p.1) (i : ι) :
    Matches R E (S.collect (before i) (.arr vs)) (S.collect (after i) (.arr ws)) := by
  rw [collect_arr, collect_arr]
  refine .of_zip hlen fun p hp => ?_
  cases hn : p.1.isNode with
  | true =>
    obtain ⟨hn', hmatch⟩ := h p hp hn
    rw [if_pos rfl, if_pos hn']
    exact (hmatch (by decide) i).1
  | false =>
    rw [hother p hp hn, hn]
    exact .nil

/-- A field that matches without its frame matches in it, bodies apart. -/
theorem Flat.matches_framed {c d : γ} {type key : String} {name v w o : Json} {fields made out : Fields Json} (h : S.Flat d)
    (hcalls : ∀ fields, S.own d "CallExpression" fields = []) (hmembers : ∀ fields, S.own c "MemberExpression" fields = [])
    (hnames : ∀ fields key c', S.next c "MemberExpression" fields key = some c' → ∀ leaf, S.own c' "Identifier" leaf = [])
    (hnode : RewrittenNode code classes up type name fields made out)
    (hbody : frameKind type key ∉ [.iteration, .counted, .function]) (hv : Fields.get? key (completed type fields) = some v)
    (hrw : Rewrites code (mode type fields key) (classesAt classes type key name) (some (.obj fields)) (readyField type key v) w)
    (hframe : Rewriting.Frame code classes up type fields made (frameKind type key) w o)
    (hmatch : Matches R E (S.collect c v) (S.collect d w)) : Matches R E (S.collect c v) (S.collect d o) := by
  by_cases hprints : frameKind type key = .callee ∧ Visit.isConsole (Json.field "callee" (.obj fields)) = .ok true
  · obtain ⟨callee, ctype, rfl, hproper, hctype, hconsole, rfl, -⟩ := hnode.exists_printer hv hframe hprints.1 hprints.2
    rw [h.collect_ident, collect_console hproper hctype hconsole (hmembers _) (hnames _)]
    exact .nil
  by_cases hsame : frameKind type key = .same
  · rw [hsame, Rewriting.Frame.same_iff] at hframe
    rwa [hframe]
  rw [mode_of_framed hsame] at hrw
  have hlist := hnode.ne_arr hv hrw hbody
  by_cases htest : frameKind type key = .test
  · rw [htest] at hframe hlist
    cases hframe with
    | test line _ text =>
      have hwrapped := h.collect_wrapped testName [.str text, line] (hlist (by decide))
      rwa [show wrapped testName [.literal (.str text), .literal line] w = wrapped testName ([.str text, line].map .literal) w from rfl,
        hwrapped, hcalls]
  · rwa [h.collect_frame hframe hnode.proper (by simpa [htest] using hbody) (fun hk hp => hprints ⟨hk, hp⟩) hlist (hrw.type?_init hv)]

/-- It is enough that woven lists contribute what their statements became, that what a node contributes itself matches, and
that its fields match when the values that stand there do. -/
theorem matched_of_rewrites
    (hwoven : ∀ i, ∀ {ss ts : List Json}, ss.length = ts.length →
      S.collect (after i) (.arr (weave ss ts)) = S.collect (after i) (.arr ts))
    (hstep : ∀ {classes up type name fields made out}, RewrittenNode code classes up type name fields made out →
      (∀ key v w, Fields.get? key (prepared type fields) = some v → Fields.get? key made = some w →
        S.Matched before after R E (mode type fields key) v w) →
      ∀ i, Matches R E (S.own (before i) type fields) (S.own (after i) type out) ∧
        ∀ key v o, Fields.get? key (completed type fields) = some v → Fields.get? key out = some o →
          Matches R E (S.part (before i) type fields key v) (S.part (after i) type out key o))
    {m : Mode} {v w : Json} (h : Rewrites code m classes up v w) : S.Matched before after R E m v w := by
  induction h with
  | kept => exact fun hm => absurd rfl hm
  | value classes up v hnode hlist =>
    refine fun _ i => ⟨?_, fun htype => ?_⟩
    · rw [collect_eq_nil hnode hlist, collect_eq_nil hnode hlist]
      exact .nil
    · rw [Json.isNode_of_type? htype] at hnode
      cases hnode
  | items classes up vs ws hlen h hother ih =>
    refine fun _ i => ⟨?_, fun htype => by cases htype⟩
    exact Matched.items hlen (fun p hp hn => ⟨(h p hp hn).isNode_eq.trans hn, ih p hp hn⟩) hother i
  | statements classes up ss ts hlen h hother ih =>
    refine fun _ i => ⟨?_, fun htype => by cases htype⟩
    rw [hwoven i hlen]
    exact Matched.items hlen (fun p hp hn => ⟨(h p hp hn).isNode_eq.trans hn, ih p hp hn⟩) hother i
  | node classes up type name fields made out htype hproper hname hmade h hout hframe ih =>
    have hnode : RewrittenNode code classes up type name fields made out := ⟨htype, hproper, hname, hmade, hout, h, hframe⟩
    refine fun _ i => ⟨?_, fun hblock => ?_⟩
    · obtain ⟨hown, hfields⟩ := hstep hnode ih i
      rw [collect_obj htype, collect_obj hnode.type?_out]
      refine hown.append ?_
      split
      · exact .nil
      · rw [← flatMap_completed hproper htype]
        exact .of_fields hnode.names_completed (nodup_completed hproper.nodup) hfields
    · obtain rfl : type = "BlockStatement" := Option.some.inj (htype.symm.trans hblock)
      obtain ⟨ss, hss, -⟩ := Json.fits_list (hproper.fits "body" htype rfl rfl)
      obtain ⟨w, hprepared, hw, ho⟩ := Unframed.exists_child (by decide) hmade hout hframe hss
      rw [Json.field_of_get? hss, Json.field_of_get? ho]
      exact (ih "body" _ w hprepared hw (by rw [mode_block]; decide) i).1

end Rewritten

end Survey

end ScriptTrace
