import ScriptTrace.Proofs.LoopRules

/-!
# Rules for nodes all fields of which are visited

* `Underway.visitAll` : the fields of a node, in the order written;
* `places_fields` : nodes without a rule of their own;
* `places_call` : calls, where those of the console are redirected.
-/

namespace ScriptTrace

open Rewriting Step

/-! ## What stands in special places only -/

/-- The types of the nodes in a slot. -/
def Slot.types : Slot → List String
  | .node types | .optional types | .list types | .gaps types => types
  | _ => []

/-- Whether a slot tells where a node stands. -/
def Slot.isPlacement : Slot → Bool
  | .position | .range => true
  | _ => false

/-- Types that hold lists of statements, declarators or class bodies. -/
def listTypes : List String := ["Program", "BlockStatement", "SwitchCase", "VariableDeclaration"] ++ classTypes

theorem bound_slots : ∀ g ∈ Grammar.table, (∀ t ∈ g.1, t ∈ listTypes) ∨
    ∀ slot ∈ g.2, (∀ t ∈ boundTypes, t ∉ slot.2.types) ∧ slot.2.isPlacement = false := by
  decide

section Rules

variable {s s₀ : Pass} {up : Option Json} {type key : String} {fields : Fields Json} {visit : Visitor}

theorem not_bound_of_inert {v : Json} {bound : List String} (h : v.isInert = true) : v.isOneOf bound = false ∧
    ∀ items, v = .arr items → ∀ x ∈ items, x.isOneOf bound = false := by
  constructor
  · cases v with
    | obj fields => exact not_bound_of_not_node (by simpa [Json.isInert] using h)
    | _ => rfl
  · rintro items rfl x hx
    exact not_bound_of_not_node (by simpa using List.all_eq_true.1 h x hx)

/-- What stands in a field is of the types of its slot. -/
theorem Json.Proper.not_bound {bound : List String} (hproper : (Json.obj fields).Proper) (htype : Fields.type? fields = some type)
    (hkey : key ≠ "loc" ∧ key ≠ "range") (hslots : ∀ slots slot, Grammar.shape type = some slots →
      Fields.get? key slots = some slot → (∀ t ∈ bound, t ∉ slot.types) ∧ slot.isPlacement = false) {v : Json}
    (hv : Fields.get? key fields = some v) : v.isOneOf bound = false ∧
      ∀ items, v = .arr items → ∀ x ∈ items, x.isOneOf bound = false := by
  obtain ⟨slots, hshape⟩ := hproper.exists_shape htype
  cases hs : Fields.get? key slots with
  | none =>
    refine not_bound_of_inert (hproper.inert htype hv hkey fun slots' slot hshape' hslot => ?_)
    rw [hshape] at hshape'
    cases hshape'
    rw [hs] at hslot
    cases hslot
  | some slot =>
    have hfits := hproper.fits _ htype hshape hs
    obtain ⟨hbound, hplacement⟩ := hslots slots slot hshape hs
    rw [hv] at hfits
    cases slot with
    | node types =>
      have hone : v.isOneOf types = true := by cases v <;> exact hfits
      exact ⟨not_bound_of_isOneOf hone hbound, by rintro items rfl; cases hone⟩
    | optional types =>
      rcases Json.fits_optional hfits with he | he | ⟨vfields, vtype, he, hvtype, hmem⟩
      · cases he
      · cases he
        exact ⟨rfl, by simp⟩
      · cases he
        exact ⟨not_bound_of_isOneOf (Json.isOneOf_iff.2 ⟨vfields, vtype, rfl, hvtype, hmem⟩) hbound, by simp⟩
    | list types =>
      obtain ⟨items, he, hall⟩ := Json.fits_list hfits
      cases he
      refine ⟨rfl, fun items' he x hx => ?_⟩
      cases he
      exact not_bound_of_isOneOf (hall x hx) hbound
    | gaps types =>
      obtain ⟨items, he, hall⟩ := Json.fits_gaps hfits
      cases he
      refine ⟨rfl, fun items' he x hx => ?_⟩
      cases he
      rcases hall x hx with rfl | hone
      · rfl
      · exact not_bound_of_isOneOf hone hbound
    | position | range => cases hplacement
    | _ => exact not_bound_of_inert (Json.inert_of_fits rfl hfits)

/-- What is visited in the other nodes is not bound to such a place. -/
theorem Site.not_bound (hsite : Site s type fields) (hlist : type ∉ listTypes) (hkey : key ≠ "loc" ∧ key ≠ "range") {v : Json}
    (hv : Fields.get? key fields = some v) : v.isOneOf boundTypes = false ∧
      ∀ items, v = .arr items → ∀ x ∈ items, x.isOneOf boundTypes = false := by
  refine hsite.proper.not_bound hsite.type hkey (fun slots slot hshape hslot => ?_) hv
  obtain ⟨g, hg, htype, rfl⟩ := ofGroup_mem_types hshape
  exact ((bound_slots g hg).resolve_left fun h => hlist (h type htype)) (key, slot) (Fields.mem_of_get? hslot)

/-! ## Types without a rule -/

/-- Types that have a rule of their own, or are not visited by themselves. -/
def ruleTypes : List String :=
  listTypes ++ functionTypes ++ classTypes ++ loopTypes ++
    ["MethodDefinition", "Property", "ReturnStatement", "VariableDeclarator", "AssignmentExpression", "UpdateExpression",
      "CallExpression", "IfStatement", "ForStatement", "LabeledStatement", "ClassBody"]

/-- What holds of a type without a rule of its own. -/
structure Ruleless (type : String) (fields : Fields Json) : Prop where
  completed : completed type fields = fields
  keys : visitedFields type fields = none
  ready : ∀ key v, readyField type key v = v
  classes : type ∉ classTypes
  lists : type ∉ listTypes
  naming : type ∉ ["VariableDeclarator", "AssignmentExpression", "Property", "MethodDefinition"]
  own : type ∉ ["AssignmentExpression", "UpdateExpression", "VariableDeclarator"]

theorem Ruleless.of_not_mem (fields : Fields Json) (h : type ∉ ruleTypes) : Ruleless type fields ∧ frameKeys type = [] := by
  simp only [ruleTypes, listTypes, functionTypes, classTypes, loopTypes, List.cons_append, List.nil_append, List.mem_cons,
    List.not_mem_nil, or_false, not_or] at h
  refine ⟨⟨?_, ?_, fun key v => ?_, ?_, ?_, ?_, ?_⟩, ?_⟩
  · exact completed_of_type (by simp [functionTypes, h])
  · simp [visitedFields, ofGroup, visitTable, functionTypes, classTypes, loopTypes, h]
  · exact readyField_of_type (by simp [functionTypes, loopTypes, h]) v
  · simp [classTypes, h]
  · simp [listTypes, classTypes, h]
  · simp [h]
  · simp [h]
  · simp [frameKeys, ofGroup, frameTable, functionTypes, loopTypes, h, Fields.names]

/-- All fields are visited, positions apart. -/
theorem Ruleless.mode (hrule : Ruleless type fields) (key : String) :
    mode type fields key = if key = "loc" ∨ key = "range" then .kept else .visited := by
  have hnot : (type, key) ∉ [("Program", "body"), ("BlockStatement", "body"), ("SwitchCase", "consequent")] := by
    have hlists := hrule.lists
    simp only [listTypes, List.mem_append, List.mem_cons, List.not_mem_nil, or_false, not_or] at hlists
    simp [hlists.1]
  simp only [Rewriting.mode, if_neg hnot, hrule.keys]

theorem Ruleless.call : Ruleless "CallExpression" fields where
  completed := completed_of_type (by decide)
  keys := by simp [visitedFields, ofGroup, visitTable, functionTypes, classTypes, loopTypes]
  ready := fun _ => readyField_of_type (by decide)
  classes := by decide
  lists := by decide
  naming := by decide
  own := by decide

/-! ## All fields -/

/-- The fields that are visited where no rule names them. -/
def visitedNames (names : List String) : List String := names.filter fun key => !(key == "loc" || key == "range")

theorem ensures_valueOrItems (hvisit : visit.Sound) {parent : Tree} {v : Json} (hparts : s.parts = [])
    (hfocus : s.focus = .ofJson v) (hproper : v.Proper) (hparent : SameParent (some parent) up)
    (hbound : v.isOneOf boundTypes = false)
    (hitems : ∀ items, v = .arr items → ∀ x ∈ items, x.isOneOf boundTypes = false) :
    Places .visited (Visit.valueOrItems visit parent) s.classes up v [] v.writes s := by
  unfold Visit.valueOrItems
  rw [Places, ensures_bind, ensures_focus, hfocus]
  cases v with
  | arr items =>
    rw [Tree.ofJson_arr] at hfocus ⊢
    have hstep := hvisit.items hparts hfocus (fun x hx => hproper.item hx)
      (fun x hx => not_part_of_not_bound (hitems items rfl x hx)) hparent
    rw [flatMap_declares fun x hx => not_class_of_not_bound (hitems items rfl x hx)] at hstep
    exact ensures_discard.2 hstep
  | _ =>
    have hstep := hvisit.places hparts hfocus (by simp) hproper (not_part_of_not_bound hbound) hparent
    rw [declares_eq_nil (not_class_of_not_bound hbound)] at hstep
    exact hstep

/-- All fields of a node are visited, positions apart. -/
theorem Underway.visitAll (hvisit : visit.Sound) (hsite : Site s type fields) (hrule : Ruleless type fields)
    (up : Option Json) :
    Ensures (Visit.fields visit) s fun _ s' => Underway s up type .null fields [] (visitedNames (Fields.names fields)).reverse []
      ((visitedNames (Fields.names fields)).flatMap (writesIn · fields)) s' := by
  have start := Underway.start type hsite hrule.completed up .null
  unfold Visit.fields
  rw [ensures_bind, ensures_focus, ensures_bind]
  -- the fields before the one at hand have been visited
  have hloop := ensures_forIn
    (I := fun rest s' => ∃ past, Fields.names fields = past ++ rest ∧
      Underway s up type .null fields [] (visitedNames past).reverse [] ((visitedNames past).flatMap (writesIn · fields)) s')
    (f := fun key _ =>
      if (key == "loc" || key == "range") = true then pure (.yield ⟨⟩)
      else do
        let node ← focus
        Step.inField key (Visit.valueOrItems visit node)
        pure (.yield ⟨⟩)) ?_ s.focus.fieldNames s ⟨[], ?_, start⟩
  · refine hloop.mono ?_
    rintro _ s' ⟨past, hpast, h⟩
    rw [List.append_nil] at hpast
    rw [← hpast] at h
    exact ensures_pure.2 h
  · rintro key rest s' ⟨past, hpast, h⟩
    cases hposition : (key == "loc" || key == "range") with
    | true =>
      have hvisited : visitedNames (past ++ [key]) = visitedNames past := by
        rw [visitedNames, List.filter_append, List.filter_cons_of_neg (by rw [hposition]; decide)]
        simp [visitedNames]
      refine ensures_pure.2 ⟨rfl, past ++ [key], by simp [hpast], ?_⟩
      rw [hvisited]
      exact h
    | false =>
      have hvisited : visitedNames (past ++ [key]) = visitedNames past ++ [key] := by
        rw [visitedNames, List.filter_append, List.filter_cons_of_pos (by rw [hposition]; rfl)]
        rfl
      have hkey : key ≠ "loc" ∧ key ≠ "range" := by simpa using hposition
      have hnew : key ∉ (visitedNames past).reverse := by
        have hnd := hsite.proper.nodup
        rw [hpast, List.nodup_append] at hnd
        intro hmem
        rw [List.mem_reverse, visitedNames, List.mem_filter] at hmem
        exact hnd.2.2 key hmem.1 key (by simp) rfl
      have hmode : mode type fields key = .visited := by simp [hrule.mode, hkey]
      obtain ⟨v, hv⟩ : ∃ v, Fields.get? key fields = some v := Fields.exists_get? (by rw [hpast]; simp)
      obtain ⟨hbound, hitems⟩ := hsite.not_bound hrule.lists hkey hv
      rw [if_neg (by decide), ensures_bind, ensures_focus, ensures_bind]
      refine (h.inField _ v.writes hsite.proper hnew (.inl rfl) (fun _ => hrule.ready key) fun w hw queue counter => ?_).mono
        fun _ s'' h => ?_
      · rw [get?_prepared_eq, hrule.completed, hv, Option.map_some, hrule.ready] at hw
        cases hw
        rw [hmode, classesAt, if_neg fun hc => hrule.classes hc.1]
        exact ensures_valueOrItems hvisit (s := { s with focus := .ofJson v, queue := queue, counter := counter })
          hsite.parts rfl (hsite.proper.field hv) (h.sameParent hsite hrule.naming (by
            intro hf; cases hf)) hbound hitems
      · refine ensures_pure.2 ⟨rfl, past ++ [key], by simp [hpast], ?_⟩
        rw [hvisited, List.reverse_append, List.flatMap_append, List.flatMap_singleton, writesIn_eq hv]
        exact h
  · obtain ⟨seen, hfocus⟩ := hsite.focus
    rw [hfocus, Tree.fieldNames, Fields.names_mapValues]
    rfl

/-- A node all fields of which have been visited, and those to frame framed. -/
theorem Underway.finishAll {framed : List String} (hsite : Site s₀ type fields)
    (h : Underway s₀ up type .null fields [] (visitedNames (Fields.names fields)).reverse framed
      ((visitedNames (Fields.names fields)).flatMap (writesIn · fields)) s)
    (hrule : Ruleless type fields)
    (hframed : ∀ key ∈ frameKeys type, key ∈ framed) :
    ∃ t c, s = { s₀ with focus := t, queue := s₀.queue.push [] (Json.obj fields).writes, counter := c } ∧
      Rewrites s₀.code .visited s₀.classes up (.obj fields) t.bare := by
  have hwrites : (Json.obj fields).writes = (visitedNames (Fields.names fields)).flatMap (writesIn · fields) := by
    rw [writes_obj hsite.type, ownWrites_eq_nil hsite.type hrule.own, List.append_nil, sameStatement, hrule.keys]
    rfl
  obtain ⟨seen, made, fs, c, rfl, hp⟩ := h
  refine ⟨_, c, by rw [hwrites], hp.finish hsite.type hsite.proper (fun hc => absurd hc hrule.classes) (fun key hkey hk => ?_)
    (fun key _ hk => ?_) seen⟩
  · refine ⟨?_, hrule.ready key⟩
    have hposition : key = "loc" ∨ key = "range" := by
      rw [hrule.completed] at hkey
      rw [List.mem_reverse, visitedNames, List.mem_filter] at hk
      by_contra hno
      exact hk ⟨hkey, by simpa using hno⟩
    rw [hrule.mode, if_pos hposition]
  · exact frameKind_of_not_mem fun hm => hk (hframed key hm)

/-! ## The rules -/

theorem places_fields (hvisit : visit.Sound) (h : type ∉ ruleTypes) (hsite : Site s type fields) :
    Places .visited (Visit.fields visit) s.classes up (.obj fields) [] (Json.obj fields).writes s := by
  obtain ⟨hrule, hframes⟩ := Ruleless.of_not_mem fields h
  refine (Underway.visitAll hvisit hsite hrule up).mono
    fun _ s' h => ?_
  exact h.finishAll hsite hrule (by simp [hframes])

theorem places_call (hvisit : visit.Sound) (hsite : Site s "CallExpression" fields) :
    Places .visited (Visit.call visit) s.classes up (.obj fields) [] (Json.obj fields).writes s := by
  have hrule : Ruleless "CallExpression" fields := .call
  obtain ⟨callee, ctype, hcallee, hctype, -⟩ := Json.fits_node (hsite.proper.fits "callee" hsite.type rfl rfl)
  obtain ⟨items, hitems, -⟩ := Json.fits_list (hsite.proper.fits "arguments" hsite.type rfl rfl)
  have hvisited : ∀ {key : String} {v : Json}, Fields.get? key fields = some v → key ≠ "loc" ∧ key ≠ "range" →
      key ∈ (visitedNames (Fields.names fields)).reverse ∧ mode "CallExpression" fields key = .visited ∧
        Fields.get? key (prepared "CallExpression" fields) = some v := by
    intro key v hv hkey
    refine ⟨?_, ?_, by rw [get?_prepared_eq, hrule.completed, hv, Option.map_some, hrule.ready]⟩
    · rw [List.mem_reverse, visitedNames, List.mem_filter]
      exact ⟨Fields.mem_names_of_get? hv, by simp [hkey]⟩
    · simp [hrule.mode, hkey]
  obtain ⟨hcdone, hcmode, hcprepared⟩ := hvisited hcallee (by decide)
  obtain ⟨hadone, hamode, haprepared⟩ := hvisited hitems (by decide)
  have hloc : "loc" ∉ (visitedNames (Fields.names fields)).reverse := by
    rw [List.mem_reverse, visitedNames, List.mem_filter]
    simp
  have hckind : frameKind "CallExpression" "callee" = .callee := rfl
  have hakind : frameKind "CallExpression" "arguments" = .arguments := rfl
  have hfield : Json.field "callee" (.obj fields) = .obj callee := by simp [Json.field, Json.get?, hcallee]
  unfold Visit.call
  rw [Places, ensures_bind]
  refine (Underway.visitAll hvisit hsite hrule up).mono
    fun _ s₁ h => ?_
  rw [ensures_bind, ensures_place]
  intro t ht
  have hrw := h.rewrites hcdone (by simp) hcprepared ht
  rw [hcmode] at hrw
  have hconsole : Visit.isConsole t.bare = Visit.isConsole (Json.field "callee" (.obj fields)) := by
    rw [hfield]
    exact hrw.isConsole_eq (hsite.proper.field hcallee) (Json.isNode_of_type? (j := .obj callee) hctype)
  rw [ensures_bind, ensures_plain, h.parts hsite, Tree.expand_nil, ensures_bind, ensures_lift, hconsole]
  intro prints hprints
  cases prints with
  | false =>
    have h := (h.frameSelf "callee" (by simp) fun made w => by rw [hckind]; exact .callee w hprints).frameSelf
      "arguments" (by decide) fun made w => by rw [hakind]; exact .arguments w hprints
    exact ensures_pure.2 (h.finishAll hsite hrule (by decide))
  | true =>
    rw [if_pos rfl, ensures_bind, ensures_place]
    intro u hu
    rw [ensures_bind]
    have h₂ := ensures_setField.1 (h.setField hsite hcdone (by simp) ht fun made => by
      rw [hckind, Tree.bare_ofProbe]
      exact .printer t.bare hprints)
    rw [ensures_setField]
    have hu₂ : (layer (s₁.focus.setField "callee" (.ofProbe (.ident (.str Probe.printName))))).require "arguments" =
        .ok u := by
      obtain ⟨seen, made, fs, c, rfl, hp⟩ := h
      rw [layer_obj, Layer.require_obj] at hu
      rw [Tree.setField_obj, layer_obj, Layer.require_obj, Fields.get?_set, if_neg (by decide), hu]
    rw [ensures_bind]
    refine h₂.line hsite hloc fun line hline => ?_
    refine (h₂.setField hsite hadone (by decide) hu₂ fun made => ?_).mono fun _ s' h => ?_
    · have hbare : (Tree.arr [.ofProbe (.literal line), Probe.node "ArrayExpression" [("elements", u)]]).bare =
          .arr [.literal line, arrayOf u.bare] := by
        simp [Probe.node, arrayOf]
      rw [hakind, hbare]
      exact .printed line _ hprints hline
    · exact h.finishAll hsite hrule (by decide)

end Rules

end ScriptTrace
