import ScriptTrace.Probe.Workspace
import ScriptTrace.Proofs.FunctionRules

/-!
# Instrumenting a program

Every rule makes of a node what is told by `Rewrites`, so by induction on the depth of the visitors does
the visit of any node, and that of a program.

* `places_rule` : the rule of a node's type;
* `visitWith_sound` : the visitor of trees of any depth;
* `instrument_rewrites` : an instrumented program is a rewritten one.
-/

namespace ScriptTrace

open Rewriting Step

section Rules

variable {s : Pass} {up : Option Json} {type : String} {fields : Fields Json} {visit : Visitor} {parent : Option Tree}

/-- The rule of a node's type, for nodes that do not declare a class. -/
theorem places_rule (hvisit : visit.Sound) (hparent : SameParent parent up) (hpart : type ∉ partTypes)
    (hclass : type ≠ "ClassDeclaration") (hsite : Site s type fields) :
    Places .visited (Visit.rule visit type parent) s.classes up (.obj fields) [] (Json.obj fields).writes s := by
  -- headers and classes have rules, but there are no nodes of these types
  obtain ⟨slots, hshape⟩ := hsite.proper.exists_shape hsite.type
  unfold Visit.rule
  split
  · exact places_block hvisit (by decide) hsite
  · exact places_block hvisit (by decide) hsite
  · exact places_switchCase hvisit hsite
  · exact places_function hvisit hparent (by decide) hsite
  · exact places_function hvisit hparent (by decide) hsite
  · exact places_function hvisit hparent (by decide) hsite
  · exact places_member hvisit (by decide) hsite
  · exact places_member hvisit (by decide) hsite
  · exact places_return hvisit hsite
  · exact absurd rfl hclass
  · exact places_classExpression hvisit hparent hsite
  · exact places_declaration hvisit hsite
  · exact places_assignment hvisit hsite
  · exact places_update hvisit hsite
  · exact places_call hvisit hsite
  · exact places_branch hvisit hsite
  · exact places_loop hvisit (by decide) hsite
  · exact places_loop hvisit (by decide) hsite
  · exact places_loop hvisit (by decide) hsite
  · exact places_loop hvisit (by decide) hsite
  · exact places_countedLoop hvisit hsite
  · exact places_labeled hvisit hsite
  · cases hshape
  · exact ensures_throw
  · cases hshape
  · refine places_fields hvisit ?_ hsite
    simp only [partTypes, List.mem_cons, List.not_mem_nil, or_false, not_or] at hpart
    simp only [ruleTypes, listTypes, functionTypes, classTypes, loopTypes, List.cons_append, List.nil_append, List.mem_cons,
      List.not_mem_nil, or_false, not_or]
    simp_all

end Rules

/-- A visitor that takes the rule of a node's type, and a sound visitor for the nodes below, is sound. -/
theorem Visitor.Sound.node_rule {visit : Visitor} (hvisit : visit.Sound) : Visitor.Sound (Visit.node visit) where
  node parent up j s hparts hfocus hnode hproper hpart hparent := by
    cases j with
    | obj fields =>
      obtain ⟨type, htype⟩ := hproper.exists_type hnode
      rw [Json.isOneOf_obj htype] at hpart
      have hpart : type ∉ partTypes := by simpa using hpart
      unfold Visit.node
      rw [Places, ensures_bind, ensures_focus, hfocus, Tree.isNode_ofJson, hnode, Tree.seen_ofJson, if_neg (by decide),
        ensures_bind, ensures_mark, hfocus, ensures_bind, ensures_place]
      intro t ht
      rw [Tree.ofJson_obj, Tree.mark, layer_obj, Layer.require_obj, Fields.get?_mapValues, Fields.get?_of_type? htype] at ht
      cases ht
      have hsite : Site { s with focus := .obj true (Fields.mapValues .ofJson fields) } type fields :=
        ⟨hparts, htype, hproper, true, rfl⟩
      rw [Tree.ofJson_obj, Tree.mark]
      by_cases hclass : type = "ClassDeclaration"
      · subst hclass
        exact places_classDeclaration hvisit hsite
      · have hnone : (Json.obj fields).declares = [] := declares_eq_nil (v := .obj fields) (by
          rw [show (Json.obj fields).type? = some type from htype]
          simpa using hclass)
        rw [hnone]
        exact places_rule hvisit hparent hpart hclass hsite
    | _ => cases hnode
  other parent j s hfocus hnode := by
    unfold Visit.node
    rw [ensures_bind, ensures_focus, hfocus, Tree.isNode_ofJson, hnode]
    exact ensures_pure.2 rfl

/-- Visitors work as told on trees of any depth; where a tree is deeper than the visitor goes, there is a fault. -/
theorem visitWith_sound : ∀ depth : Nat, (visitWith depth).Sound
  | 0 => ⟨fun _ _ _ _ _ _ _ _ _ _ => ensures_throw, fun _ _ _ _ _ => ensures_throw⟩
  | depth + 1 => (visitWith_sound depth).node_rule

theorem isProgram_ofJson (tree : Json) : Workspace.isProgram (.ofJson tree) = true ↔ tree.type? = some "Program" := by
  rw [Workspace.isProgram, Tree.isNode_ofJson]
  cases tree with
  | obj fields =>
    rw [Tree.ofJson_obj, Tree.field, Fields.get?_mapValues]
    change ((Fields.get? "type" fields).isSome && _) = true ↔ (Fields.get? "type" fields).bind Json.string? = some "Program"
    cases htype : Fields.get? "type" fields with
    | none => simp
    | some type => cases type <;> simp [layer, Tree.ofJson, Tree.ofJsonWith, Tree.layerOf, Layer.isString, Json.string?]
  | _ => exact iff_of_false Bool.false_ne_true (Option.some_ne_none _).symm

/-- The state in which the pass over a program begins, with nothing shared and nothing queued. -/
def Pass.start (tree : Json) (code : Option String) : Pass := ⟨.ofJson tree, [], code, .empty false, [], 0⟩

/-- What instrumenting answers is what the pass over the program leaves. -/
theorem instrument_eq {tree : Json} (code : Option String) (htype : tree.type? = some "Program") :
    instrument tree code =
      let run := (visitWith (Workspace.visitDepth tree) none).effect (.start tree code)
      (run.1.mapError .ofFault).map fun _ => run.2.focus.expand run.2.parts := by
  have hplain : (Workspace.ofTrees code [tree]).plain 0 = tree := Tree.expand_ofJson _ tree
  have htree : (Workspace.ofTrees code [tree]).tree 0 = .ofJson tree := rfl
  rw [instrument, Workspace.instrument, htree, (isProgram_ofJson tree).2 htype, hplain]
  rfl

/-- An instrumented program is what is told by `Rewrites`. -/
theorem instrument_rewrites {tree out : Json} {code : Option String} (h : tree.WellFormed)
    (hrun : instrument tree code = .ok out) : Rewrites code .visited [] none tree out := by
  obtain ⟨htype, hproper⟩ := h
  have hnode : tree.isNode = true := Json.isNode_of_type? htype
  have hpart : tree.isOneOf partTypes = false := by rw [Json.isOneOf, htype]; rfl
  have hsound (depth : Nat) := (visitWith_sound depth).node none none tree (.start tree code) rfl rfl hnode hproper hpart .none
  rw [instrument_eq code htype] at hrun
  rcases heffect : (visitWith (Workspace.visitDepth tree) none).effect (.start tree code) with ⟨r, done⟩
  rw [heffect] at hrun
  cases r with
  | error fault => cases hrun
  | ok a =>
    obtain ⟨t, c, rfl, hrw⟩ := hsound _ a done heffect
    cases hrun
    exact hrw

/-! ## Programs with their probes -/

namespace Json

mutual

/-- Whether two values are the same, decided by their parts. -/
def same : Json → Json → Bool
  | null, null => true
  | bool a, bool b => a == b
  | int a, int b => a == b
  | float a, float b => a == b
  | str a, str b => a == b
  | arr as, arr bs => sameItems as bs
  | obj as, obj bs => sameFields as bs
  | _, _ => false

def sameItems : List Json → List Json → Bool
  | [], [] => true
  | a :: as, b :: bs => same a b && sameItems as bs
  | _, _ => false

def sameFields : List (String × Json) → List (String × Json) → Bool
  | [], [] => true
  | (k, a) :: as, (l, b) :: bs => k == l && same a b && sameFields as bs
  | _, _ => false

end

mutual

theorem eq_of_same : ∀ {a b : Json}, same a b = true → a = b
  | null, b, h => by cases b <;> first | rfl | cases h
  | bool a, b, h => by
    cases b with
    | bool b => exact congrArg bool (beq_iff_eq.1 h)
    | _ => cases h
  | int a, b, h => by
    cases b with
    | int b => exact congrArg int (beq_iff_eq.1 h)
    | _ => cases h
  | float a, b, h => by
    cases b with
    | float b => exact congrArg float (beq_iff_eq.1 h)
    | _ => cases h
  | str a, b, h => by
    cases b with
    | str b => exact congrArg str (beq_iff_eq.1 h)
    | _ => cases h
  | arr as, b, h => by
    cases b with
    | arr bs => exact congrArg arr (eq_of_sameItems h)
    | _ => cases h
  | obj as, b, h => by
    cases b with
    | obj bs => exact congrArg obj (eq_of_sameFields h)
    | _ => cases h

theorem eq_of_sameItems : ∀ {as bs : List Json}, sameItems as bs = true → as = bs
  | [], [], _ => rfl
  | [], _ :: _, h | _ :: _, [], h => by cases h
  | a :: as, b :: bs, h => by
    rw [sameItems, Bool.and_eq_true] at h
    rw [eq_of_same h.1, eq_of_sameItems h.2]

theorem eq_of_sameFields : ∀ {as bs : List (String × Json)}, sameFields as bs = true → as = bs
  | [], [], _ => rfl
  | [], _ :: _, h | _ :: _, [], h => by cases h
  | (k, a) :: as, (l, b) :: bs, h => by
    rw [sameFields, Bool.and_eq_true, Bool.and_eq_true, beq_iff_eq] at h
    rw [h.1.1, eq_of_same h.1.2, eq_of_sameFields h.2]

end

end Json

/-- What instrumenting answers, by its parts. -/
theorem instrument_eq_ok {tree out : Json} {code : Option String}
    (h : (instrument tree code).toOption.any (Json.same · out) = true) : instrument tree code = .ok out := by
  cases hrun : instrument tree code with
  | ok j =>
    rw [hrun] at h
    rw [Json.eq_of_same h]
  | error refusal => rw [hrun] at h; cases h

/-- A function that returns its parameter after an assignment, and a call of the console in a branch. -/
def echoProgram : Json :=
  let log : Json := .obj [("type", .str "MemberExpression"), ("object", .ident (.str "console")),
    ("property", .ident (.str "log")), ("computed", .bool false)]
  .obj [("type", .str "Program"), ("body", .arr [
    .obj [("type", .str "FunctionDeclaration"), ("id", .ident (.str "echo")), ("params", .arr [.ident (.str "a")]),
      ("body", blockOf [
        .expressionStatement (.obj [("type", .str "AssignmentExpression"), ("operator", .str "="),
          ("left", .ident (.str "last")), ("right", .ident (.str "a"))]),
        .obj [("type", .str "ReturnStatement"), ("argument", .ident (.str "a"))]])],
    .obj [("type", .str "IfStatement"), ("test", .ident (.str "last")),
      ("consequent", .expressionStatement (.obj [("type", .str "CallExpression"), ("callee", log),
        ("arguments", .arr [.ident (.str "last")])]))]])]

end ScriptTrace
