import ScriptTrace.Proofs.RuleSteps

/-!
# Rules for plain nodes

What the rules of the types without headers and bodies do: they make of a node what is told by
`Rewrites`, and queue its records.

* `places_block`, `places_switchCase`, `places_labeled`, `places_return` : statements;
* `places_assignment`, `places_update`, `places_declaration` : nodes that queue records;
* `places_member` : properties and methods, whose key is visited only if it is computed.
-/

namespace ScriptTrace

open Rewriting Step

section Rules

variable {s : Pass} {up : Option Json} {type : String} {fields : Fields Json} {visit : Visitor}

theorem completed_of_type (h : type ∉ "ReturnStatement" :: functionTypes) : completed type fields = fields := by
  simp only [List.mem_cons, not_or] at h
  simp [completed, h]

theorem mode_of_visited (key : String) {keys : List String} (hkeys : visitedFields type fields = some keys)
    (hkey : key ∈ keys)
    (hlist : (type, key) ∉ [("Program", "body"), ("BlockStatement", "body"), ("SwitchCase", "consequent")]) :
    mode type fields key = .visited := by
  simp only [mode, if_neg hlist, hkeys, if_pos hkey]

/-- A step that is left out where there is nothing to do. -/
theorem ensures_optional {β : Type} {c : Bool} {act : Step Unit} {k : Unit → Step β} {P : Pass → Prop}
    {Q : β → Pass → Prop} (hact : Ensures (if c then act else pure ()) s fun _ s' => P s')
    (hk : ∀ s', P s' → Ensures (k ()) s' Q) : Ensures (if c then act >>= k else k ()) s Q := by
  cases c with
  | true => exact ensures_bind.2 (hact.mono fun _ s' h => hk s' h)
  | false => exact hk s (ensures_pure.1 hact)

/-- The records of a node that has none of its own. -/
theorem writes_of_visited {keys : List String} (htype : Fields.type? fields = some type)
    (hkeys : visitedFields type fields = some keys)
    (hown : type ∉ ["AssignmentExpression", "UpdateExpression", "VariableDeclarator"]) :
    (Json.obj fields).writes = (keys.filter fun key => !isApart type key).flatMap (writesIn · fields) := by
  rw [writes_obj htype, ownWrites_eq_nil htype hown, List.append_nil, sameStatement, hkeys]

/-! ## Lists of statements -/

theorem places_block (hvisit : visit.Sound) (htype : type ∈ ["Program", "BlockStatement"]) (hsite : Site s type fields) :
    Places .visited (Visit.block visit) s.classes up (.obj fields) [] (Json.obj fields).writes s := by
  -- both types have the same rule
  have hfacts : completed type fields = fields ∧ visitedFields type fields = some ["body"] ∧
      mode type fields "body" = .statements ∧ type ∉ classTypes ∧ (∀ v, readyField type "body" v = v) ∧
      frameKeys type = [] ∧ ["body"].filter (fun key => !isApart type key) = [] ∧
      type ∉ ["AssignmentExpression", "UpdateExpression", "VariableDeclarator"] ∧
      ∃ slots, Grammar.shape type = some slots ∧ Fields.get? "body" slots = some (.list Grammar.listed) := by
    simp only [List.mem_cons, List.not_mem_nil, or_false] at htype
    rcases htype with rfl | rfl
    all_goals
      exact ⟨completed_of_type (by decide), by simp [visitedFields, ofGroup, visitTable], by simp [mode], by decide,
        readyField_of_type (by decide), rfl, rfl, by decide, _, rfl, rfl⟩
  obtain ⟨hcompleted, hkeys, hmode, hclass, hready, hframes, happart, hown, slots, hshape, hslot⟩ := hfacts
  unfold Visit.block
  have start := Underway.start type hsite hcompleted up .null
  refine (start.visitStatements _ hvisit hsite hshape hslot (by decide) (by decide) (.inl rfl) hready hcompleted hmode hclass).mono
    fun _ s' h => ?_
  refine h.finish hsite hkeys (by decide) (by simp [hframes]) ?_ fun hc => absurd hc hclass
  rw [writes_of_visited hsite.type hkeys hown, happart]
  rfl

theorem places_switchCase (hvisit : visit.Sound) (hsite : Site s "SwitchCase" fields) :
    Places .visited (Visit.switchCase visit) s.classes up (.obj fields) [] (Json.obj fields).writes s := by
  have hcompleted : completed "SwitchCase" fields = fields := completed_of_type (by decide)
  have hkeys : visitedFields "SwitchCase" fields = some ["test", "consequent"] := by
    simp [visitedFields, ofGroup, visitTable, functionTypes]
  have start := Underway.start "SwitchCase" hsite hcompleted up .null
  unfold Visit.switchCase
  rw [Places, ensures_bind]
  refine (start.visitOptional "test" hvisit hsite rfl rfl (by decide) (by decide) (by decide) (.inl rfl)
    (readyField_of_type (by decide)) hcompleted (mode_of_visited _ hkeys (by decide) (by decide)) (by decide)
    (start.sameParent hsite (by decide) (by decide))).mono fun t s₁ ht => ?_
  refine ensures_optional ht fun s₂ h => ?_
  refine (h.visitStatements "consequent" hvisit hsite rfl rfl (by decide) (by decide) (.inl rfl)
    (readyField_of_type (by decide)) hcompleted (by simp [mode]) (by decide)).mono fun _ s' h => ?_
  refine h.finish hsite hkeys (by decide) (by decide) ?_ (fun hc => absurd hc (by decide))
  rw [writes_of_visited hsite.type hkeys (by decide)]
  simp [isApart, apartTable, ofGroup, functionTypes]

theorem places_labeled (hvisit : visit.Sound) (hsite : Site s "LabeledStatement" fields) :
    Places .visited (Visit.field visit "body") s.classes up (.obj fields) [] (Json.obj fields).writes s := by
  have hcompleted : completed "LabeledStatement" fields = fields := completed_of_type (by decide)
  have hkeys : visitedFields "LabeledStatement" fields = some ["body"] := by
    simp [visitedFields, ofGroup, visitTable]
  have start := Underway.start "LabeledStatement" hsite hcompleted up .null
  refine (start.visitNode "body" hvisit hsite rfl rfl (by decide) (by decide) (.inl rfl)
    (readyField_of_type (by decide)) hcompleted (mode_of_visited _ hkeys (by decide) (by decide)) (by decide)
    (start.sameParent hsite (by decide) (by decide))).mono fun _ s' h => ?_
  refine h.finish hsite hkeys (by decide) (by decide) ?_ (fun hc => absurd hc (by decide))
  rw [writes_of_visited hsite.type hkeys (by decide)]
  simp [isApart, apartTable, ofGroup, functionTypes, loopTypes]

/-! ## Assignments -/

section Records

variable {s₀ : Pass} {key : String} {name : Json} {ready done framed : List String} {records : List Json}

theorem Underway.allowsAfter (h : Underway s₀ up type name fields ready done framed records s) :
    s.queue.allowsAfter = s₀.queue.allowsAfter := by
  obtain ⟨seen, made, fs, c, rfl, hp⟩ := h
  rfl

/-- A record is queued where the queue allows it. -/
theorem Underway.queue (h : Underway s₀ up type name fields ready done framed records s) (hallows : s.queue.allowsAfter = true)
    (record : Json) : Ensures (queueAfter (.ofProbe record)) s fun _ s' =>
      Underway s₀ up type name fields ready done framed (records ++ [record]) s' := by
  obtain ⟨seen, made, fs, c, rfl, hp⟩ := h
  rw [ensures_queueAfter]
  refine ⟨seen, made, fs, c, ?_, hp⟩
  have hpush := Queue.push_push s₀.queue [] records [] [record]
  rw [Queue.push_of_allows hallows, List.append_nil] at hpush
  rw [← hpush]

/-- Records are dropped where the queue allows none. -/
theorem Underway.drop (h : Underway s₀ up type name fields ready done framed records s) (hallows : s.queue.allowsAfter = false)
    (dropped : List Json) : Underway s₀ up type name fields ready done framed (records ++ dropped) s := by
  obtain ⟨seen, made, fs, c, rfl, hp⟩ := h
  refine ⟨seen, made, fs, c, ?_, hp⟩
  have hpush := Queue.push_push s₀.queue [] records [] dropped
  rw [Queue.push_of_not_allows hallows, List.append_nil] at hpush
  rw [← hpush]

/-- What was written shows the same variables as what was read. -/
theorem Underway.queueAssign (hsite : Site s₀ type fields) (h : Underway s₀ up type name fields ready done framed records s)
    (hdone : key ∈ done) (hloc : "loc" ∉ done) (hframed : key ∉ framed) (hready : ∀ v, readyField type key v = v)
    (hcompleted : completed type fields = fields) (hmode : mode type fields key = .visited) {v : Json}
    (hv : Fields.get? key fields = some v) :
    Ensures (Visit.queueAssign key) s fun _ s' =>
      Underway s₀ up type name fields ready done framed (records ++ answers (assigned fields v)) s' := by
  unfold Visit.queueAssign
  rw [ensures_bind, ensures_place]
  intro t ht
  have hprepared : Fields.get? key (prepared type fields) = some v := by
    rw [get?_prepared_eq, hcompleted, hv, Option.map_some, hready]
  have htargets : targetsOf t.bare = targetsOf v :=
    (h.rewrites hdone hframed hprepared ht).targetsOf_eq (by rw [hmode]; decide)
  have hparts := h.parts hsite
  simp only [ensures_bind, ensures_plain, hparts, Tree.expand_nil, htargets, ensures_lift, ensures_get]
  intro targets htargets
  cases targets with
  | nil =>
    have hassigned : assigned fields v = .ok [] := by rw [assigned, htargets]; rfl
    rw [hassigned]
    simpa [answers] using h
  | cons target targets =>
    rw [List.isEmpty_cons, Bool.not_false, Bool.true_and]
    cases hallows : s.queue.allowsAfter with
    | false => exact ensures_pure.2 (h.drop hallows _)
    | true =>
      rw [if_pos rfl, ensures_bind]
      refine h.line hsite hloc fun line hline => ?_
      have hassigned : assigned fields v = .ok [Probe.localsStatement "assign" line (target :: targets)] := by
        rw [assigned, htargets, ok_bind]
        simp only [hline, ok_bind, pure_eq_ok]
      rw [hassigned]
      exact h.queue hallows _

end Records

theorem places_update (hvisit : visit.Sound) (hsite : Site s "UpdateExpression" fields) :
    Places .visited (Visit.update visit) s.classes up (.obj fields) [] (Json.obj fields).writes s := by
  have hcompleted : completed "UpdateExpression" fields = fields := completed_of_type (by decide)
  have hkeys : visitedFields "UpdateExpression" fields = some ["argument"] := by
    simp [visitedFields, ofGroup, visitTable, functionTypes]
  have hmode := mode_of_visited "argument" hkeys (by decide) (by decide)
  have start := Underway.start "UpdateExpression" hsite hcompleted up .null
  obtain ⟨target, _, htarget, -, -⟩ := Json.fits_node (hsite.proper.fits "argument" hsite.type rfl rfl)
  unfold Visit.update
  rw [Places, ensures_bind]
  refine (start.visitNode "argument" hvisit hsite rfl rfl (by decide) (by decide) (.inl rfl)
    (readyField_of_type (by decide)) hcompleted hmode (by decide) (start.sameParent hsite (by decide) (by decide))).mono
    fun _ s₁ h => ?_
  refine (h.queueAssign hsite (by decide) (by decide) (by decide) (readyField_of_type (by decide)) hcompleted hmode
    htarget).mono fun _ s' h => ?_
  refine h.finish hsite hkeys (by decide) (by decide) ?_ (fun hc => absurd hc (by decide))
  rw [writes_obj hsite.type, sameStatement, hkeys, ownWrites, hsite.type]
  simp [isApart, apartTable, ofGroup, functionTypes, loopTypes, Json.field, Json.get?, htarget]

theorem Site.sameParent (hsite : Site s type fields) : SameParent (some s.focus) (some (.obj fields)) := by
  have hbare : s.focus.bare = .obj fields := by
    have hid : Tree.bare ∘ Tree.ofJson = id := funext Tree.bare_ofJson
    obtain ⟨seen, hfocus⟩ := hsite.focus
    rw [hfocus, Tree.bare_obj, Fields.mapValues_mapValues, hid, Fields.mapValues_id]
  exact hbare ▸ SameParent.refl s.focus

theorem nameFromParent_assignment {classes : List Json} {left : Json}
    (htype : Fields.type? fields = some "AssignmentExpression") (hleft : Fields.get? "left" fields = some left) :
    nameFromParent classes (.obj fields) = leftName left := by
  rw [nameFromParent, Json.hasType_json htype, Json.hasType_json htype, layer_json_obj, Layer.require_of_get? hleft]
  rfl

theorem places_assignment (hvisit : visit.Sound) (hsite : Site s "AssignmentExpression" fields) :
    Places .visited (Visit.assignment visit) s.classes up (.obj fields) [] (Json.obj fields).writes s := by
  have hcompleted : completed "AssignmentExpression" fields = fields := completed_of_type (by decide)
  have hkeys : visitedFields "AssignmentExpression" fields = some ["left", "right"] := by
    simp [visitedFields, ofGroup, visitTable, functionTypes, classTypes]
  have hmode := mode_of_visited "left" hkeys (by decide) (by decide)
  have start := Underway.start "AssignmentExpression" hsite hcompleted up .null
  obtain ⟨target, _, htarget, htargetType, -⟩ := Json.fits_node (hsite.proper.fits "left" hsite.type rfl rfl)
  unfold Visit.assignment
  rw [Places, ensures_bind]
  refine (start.visitNode "left" hvisit hsite rfl rfl (by decide) (by decide) (.inl rfl)
    (readyField_of_type (by decide)) hcompleted hmode (by decide) (hsite.sameParent)).mono fun _ s₁ h => ?_
  have hparent : SameParent (some s₁.focus) (some (.obj fields)) := by
    have hget := h.get?_inert (by decide) (Fields.get?_of_type? hsite.type) rfl (by decide)
    obtain ⟨seen, made, fs, c, rfl, hp⟩ := h
    have hprepared : Fields.get? "left" (prepared "AssignmentExpression" fields) = some (.obj target) := by
      rw [get?_prepared_eq, hcompleted, htarget, Option.map_some, readyField_of_type (by decide)]
    obtain ⟨t, -, hfs, hrw⟩ := hp.exists_visited (by decide) (by decide) hprepared
    rw [hmode] at hrw
    have hbare : Fields.get? "left" (Fields.mapValues Tree.bare fs) = some t.bare := by
      rw [Fields.get?_mapValues, hfs]; rfl
    refine .of_nameFromParent fun classes => ?_
    rw [Tree.bare_obj] at hget ⊢
    rw [nameFromParent_assignment hsite.type htarget, nameFromParent_assignment (Fields.type?_of_get? hget) hbare]
    exact hrw.leftName_eq (hsite.proper.field htarget) (Json.isNode_of_type? (j := .obj target) htargetType)
  rw [ensures_bind]
  refine (h.visitNode "right" hvisit hsite rfl rfl (by decide) (by decide) (.inl rfl)
    (readyField_of_type (by decide)) hcompleted (mode_of_visited _ hkeys (by decide) (by decide)) (by decide) hparent).mono
    fun _ s₂ h => ?_
  refine (h.queueAssign hsite (by decide) (by decide) (by decide) (readyField_of_type (by decide)) hcompleted hmode
    htarget).mono fun _ s' h => ?_
  refine h.finish hsite hkeys (by decide) (by decide) ?_ (fun hc => absurd hc (by decide))
  rw [writes_obj hsite.type, sameStatement, hkeys, ownWrites, hsite.type]
  simp [isApart, apartTable, ofGroup, functionTypes, loopTypes, Json.field, Json.get?, htarget]

/-! ## Declarations -/

theorem bound_eq {pattern line : Json} {names : List Json} (hnames : bindingNames pattern = .ok names)
    (hline : names ≠ [] → Node.line (.obj fields) = .ok line) :
    bound fields pattern = .ok (names.map fun name => Probe.localsStatement "declare" line [.named name]) := by
  rw [bound, hnames, ok_bind]
  clear hnames
  induction names with
  | nil => rfl
  | cons name names ih =>
    have hl := hline (by simp)
    rw [List.mapM_cons, ih fun _ => hl, hl]
    rfl

theorem places_declarator (hvisit : visit.Sound) (hsite : Site s "VariableDeclarator" fields) :
    Places .visited (Visit.declarator visit) s.classes up (.obj fields) [] (Json.obj fields).writes s := by
  have hcompleted : completed "VariableDeclarator" fields = fields := completed_of_type (by decide)
  have hkeys : visitedFields "VariableDeclarator" fields = some ["init"] := by
    simp [visitedFields, ofGroup, visitTable, functionTypes, classTypes]
  have start := Underway.start "VariableDeclarator" hsite hcompleted up .null
  obtain ⟨target, _, htarget, htargetType, -⟩ := Json.fits_node (hsite.proper.fits "id" hsite.type rfl rfl)
  have hwrites : (Json.obj fields).writes = writesIn "init" fields ++ answers (bound fields (.obj target)) := by
    rw [writes_obj hsite.type, sameStatement, hkeys, ownWrites, hsite.type]
    simp [isApart, apartTable, ofGroup, functionTypes, loopTypes, Json.field, Json.get?, htarget]
  unfold Visit.declarator
  rw [Places, ensures_bind]
  refine (start.visitOptional "init" hvisit hsite rfl rfl (by decide) (by decide) (by decide) (.inl rfl)
    (readyField_of_type (by decide)) hcompleted (mode_of_visited _ hkeys (by decide) (by decide)) (by decide)
    (hsite.sameParent)).mono fun t s₁ ht => ?_
  refine ensures_optional ht fun s₂ h => ?_
  rw [ensures_bind, ensures_get]
  have hend : ∀ s' : Pass, Underway s up "VariableDeclarator" .null fields [] ["init"] []
      ([] ++ writesIn "init" fields ++ answers (bound fields (.obj target))) s' → ∃ t c,
        s' = { s with focus := t, queue := s.queue.push [] (Json.obj fields).writes, counter := c } ∧
          Rewrites s.code .visited s.classes up (.obj fields) t.bare := fun s' h =>
    h.finish hsite hkeys (by decide) (by decide) hwrites.symm (fun hc => absurd hc (by decide))
  rw [h.allowsAfter]
  cases hallows : s.queue.allowsAfter with
  | false => exact ensures_pure.2 (hend s₂ (h.drop (h.allowsAfter.trans hallows) _))
  | true =>
    rw [if_pos rfl, ensures_bind, ensures_place]
    intro t ht
    have ht : t = .ofJson (.obj target) ∧ s₂.parts = [] := by
      obtain ⟨seen, made, fs, c, rfl, hp⟩ := h
      rw [layer_obj, Layer.require_obj, hp.fresh "id" (by decide), hp.waiting "id" (by decide), if_neg (by decide),
        hcompleted, htarget] at ht
      exact ⟨(Option.some.inj ht).symm, hsite.parts⟩
    obtain ⟨rfl, hparts⟩ := ht
    simp only [ensures_bind, ensures_plain, hparts, Tree.expand_nil, Tree.bare_ofJson, ensures_lift]
    intro names hnames
    -- the records of the names that have been dealt with are queued
    have hloop := ensures_forIn
      (I := fun rest s' => ∃ line past, names = past ++ rest ∧ (past ≠ [] → Node.line (.obj fields) = .ok line) ∧
        Underway s up "VariableDeclarator" .null fields [] ["init"] []
          ([] ++ writesIn "init" fields ++ past.map fun name => Probe.localsStatement "declare" line [.named name]) s')
      (f := fun name _ => do
        queueAfter (.ofProbe (Probe.localsStatement "declare" (← Step.line) [.named name]))
        pure (.yield ⟨⟩)) ?_ names s₂ ⟨.null, [], rfl, by simp, by simpa using h⟩
    · refine hloop.mono ?_
      rintro _ s' ⟨line, past, hpast, hline, h⟩
      rw [List.append_nil] at hpast
      subst hpast
      refine ensures_pure.2 (hend s' ?_)
      rw [bound_eq hnames hline]
      exact h
    · rintro name rest s' ⟨line, past, hpast, hline, h⟩
      rw [ensures_bind]
      refine h.line hsite (by decide) fun line' hline' => ?_
      have hmap : (past.map fun name => Probe.localsStatement "declare" line [.named name]) =
          past.map fun name => Probe.localsStatement "declare" line' [.named name] := by
        cases past with
        | nil => rfl
        | cons _ _ => rw [Except.ok.inj ((hline (by simp)).symm.trans hline')]
      rw [hmap] at h
      rw [ensures_bind]
      refine (h.queue (h.allowsAfter.trans hallows) _).mono fun _ s'' h => ?_
      exact ensures_pure.2 ⟨rfl, line', past ++ [name], by simp [hpast], fun _ => hline', by simpa using h⟩

theorem Site.item {types : List String} {v : Json} (hparts : s.parts = []) (hproper : v.Proper)
    (hv : v.isOneOf types = true) (queue : Queue) (counter : Nat) : ∃ vfields vtype, v = .obj vfields ∧ vtype ∈ types ∧
      Site { s with focus := .ofJson v, queue := queue, counter := counter } vtype vfields := by
  obtain ⟨vfields, vtype, rfl, hvtype, hmem⟩ := Json.isOneOf_iff.1 hv
  exact ⟨vfields, vtype, rfl, hmem, hparts, hvtype, hproper, false, Tree.ofJson_obj vfields⟩

theorem places_declaration (hvisit : visit.Sound) (hsite : Site s "VariableDeclaration" fields) :
    Places .visited (Visit.declaration visit) s.classes up (.obj fields) [] (Json.obj fields).writes s := by
  have hcompleted : completed "VariableDeclaration" fields = fields := completed_of_type (by decide)
  have hkeys : visitedFields "VariableDeclaration" fields = some ["declarations"] := by
    simp [visitedFields, ofGroup, visitTable, functionTypes, classTypes]
  have start := Underway.start "VariableDeclaration" hsite hcompleted up .null
  obtain ⟨items, hitems, hall⟩ := Json.fits_list (hsite.proper.fits "declarations" hsite.type rfl rfl)
  unfold Visit.declaration
  rw [Places, ensures_discard]
  refine (start.inField "declarations" (Json.arr items).writes hsite.proper (by decide) (.inl rfl)
    (fun _ => readyField_of_type (by decide)) fun v hv queue counter => ?_).mono fun _ s' h => ?_
  · rw [get?_prepared_eq, hcompleted, hitems, Option.map_some, readyField_of_type (by decide)] at hv
    cases hv
    rw [mode_of_visited _ hkeys (by decide) (by decide), classesAt, if_neg (by decide)]
    have hstep := places_items (s := { s with focus := .ofJson (.arr items), queue := queue, counter := counter })
      (Visit.declarator visit) s.classes (some (.obj fields)) (fun _ => []) Json.writes (Tree.ofJson_arr items) (fun w hw _ queue' counter' => ?_) (fun w hw hn => ?_)
    · have hnone : (items.flatMap fun v => if v.isNode then ([] : List Json) else []) = [] :=
        List.flatMap_eq_nil_iff.2 fun v _ => ite_self _
      rwa [hnone, ← Json.writes_arr] at hstep
    · obtain ⟨wfields, wtype, rfl, hmem, hwsite⟩ := Site.item (s := s) hsite.parts
        ((hsite.proper.field hitems).item hw) (hall w hw) queue' counter'
      obtain rfl := List.mem_singleton.1 hmem
      exact places_declarator hvisit hwsite
    · obtain ⟨wfields, wtype, rfl, hwtype, -⟩ := Json.isOneOf_iff.1 (hall w hw)
      rw [Json.isNode_of_type? (j := .obj wfields) hwtype] at hn
      cases hn
  · refine h.finish hsite hkeys (by decide) (by decide) ?_ (fun hc => absurd hc (by decide))
    rw [writes_of_visited hsite.type hkeys (by decide)]
    simp [isApart, apartTable, ofGroup, functionTypes, loopTypes, writesIn, hitems]

/-! ## Members -/

theorem isComputed_eq (hsite : Site s type fields) {slots : List (String × Slot)} (hshape : Grammar.shape type = some slots)
    (hslot : Fields.get? "computed" slots = some .flag) : Fields.get? "computed" fields = none ∧ isComputed fields = false ∨
      ∃ b, Fields.get? "computed" fields = some (.bool b) ∧ isComputed fields = b := by
  have hfits := hsite.proper.fits _ hsite.type hshape hslot
  cases hv : Fields.get? "computed" fields with
  | none => exact .inl ⟨rfl, by simp [isComputed, hv]⟩
  | some v =>
    rw [hv] at hfits
    cases v with
    | bool b => exact .inr ⟨b, rfl, by simp [isComputed, hv]; rfl⟩
    | _ => cases hfits

theorem Underway.computed {s₀ : Pass} {name : Json} {records : List Json} (hsite : Site s₀ type fields)
    (h : Underway s₀ up type name fields [] [] [] records s) (hcompleted : completed type fields = fields)
    {slots : List (String × Slot)} (hshape : Grammar.shape type = some slots)
    (hslot : Fields.get? "computed" slots = some .flag) {R : Bool → Pass → Prop} (hR : R (isComputed fields) s) :
    Ensures (flag "computed") s R := by
  unfold flag
  rw [ensures_bind]
  have hcases := isComputed_eq hsite hshape hslot
  refine h.child? (by decide) (by decide) hcompleted (fun hv => ?_) (fun v hv _ => ?_)
  · rcases hcases with ⟨-, hc⟩ | ⟨b, hb, -⟩
    · rw [ensures_pure, ← hc]
      exact hR
    · rcases hv with hv | hv <;> rw [hv] at hb <;> cases hb
  · rcases hcases with ⟨hn, -⟩ | ⟨b, hb, hc⟩
    · rw [hv] at hn; cases hn
    · rw [hv] at hb
      cases hb
      rw [ensures_pure]
      rw [hc] at hR
      exact hR

/-- A computed key gives no name. -/
theorem nameFromParent_computed {classes : List Json} (htype : Fields.type? fields = some type)
    (h : type ∈ ["MethodDefinition", "Property"]) (hcomputed : Fields.get? "computed" fields = some (.bool true)) :
    nameFromParent classes (.obj fields) =
      .ok (if type = "MethodDefinition" ∧ (Json.field "kind" (.obj fields)).string? = some "constructor" then classes.head?
        else none) := by
  have hflag : (Layer.obj fields).flag "computed" = .ok true := by
    rw [Layer.flag, Layer.optional, hcomputed]
    rfl
  rw [nameFromParent, Json.hasType_json htype, Json.hasType_json htype, Json.hasType_json htype,
    Json.hasTypeIn_json htype, layer_json_obj, hflag]
  simp only [List.mem_cons, List.not_mem_nil, or_false] at h
  rcases h with rfl | rfl
  · by_cases hk : (Json.field "kind" (.obj fields)).string? = some "constructor"
    · rw [beq_iff_eq.2 hk, if_pos ⟨rfl, hk⟩]
      cases classes <;> rfl
    · rw [beq_false_of_ne hk, if_neg fun hc => hk hc.2]
      cases classes <;> rfl
  · rw [if_neg fun hc => absurd hc.1 (by decide)]
    cases classes <;> rfl

/-- A method or property: `type` is one of the two. -/
theorem places_member (hvisit : visit.Sound) (htype : type ∈ ["MethodDefinition", "Property"]) (hsite : Site s type fields) :
    Places .visited (Visit.member visit) s.classes up (.obj fields) [] (Json.obj fields).writes s := by
  have hfacts : completed type fields = fields ∧
      visitedFields type fields = some (if isComputed fields then ["key", "value"] else ["value"]) ∧
      type ∉ classTypes ∧ (∀ key v, readyField type key v = v) ∧ frameKeys type = [] ∧ (∀ key, isApart type key = false) ∧
      type ∉ ["AssignmentExpression", "UpdateExpression", "VariableDeclarator"] ∧
      (∀ key, (type, key) ∉ [("Program", "body"), ("BlockStatement", "body"), ("SwitchCase", "consequent")]) ∧
      ∃ slots keys values, Grammar.shape type = some slots ∧ Fields.get? "computed" slots = some .flag ∧
        Fields.get? "kind" slots = some .text ∧ Fields.get? "key" slots = some (.node keys) ∧
        (∀ t ∈ boundTypes, t ∉ keys) ∧
        Fields.get? "value" slots = some (.node values) ∧ ∀ t ∈ boundTypes, t ∉ values := by
    simp only [List.mem_cons, List.not_mem_nil, or_false] at htype
    rcases htype with rfl | rfl
    all_goals
      exact ⟨completed_of_type (by decide), by simp [visitedFields], by decide,
        fun key => readyField_of_type (by decide), rfl,
        fun key => by simp [isApart, apartTable, ofGroup, functionTypes, loopTypes], by decide,
        fun key => by simp, _, _, _, rfl, rfl, rfl, rfl, by decide, rfl, by decide⟩
  obtain ⟨hcompleted, hkeys, hclass, hready, hframes, happart, hown, hlist, slots, keys, values, hshape, hcomputed, hkind,
    hkey, hkeyClass, hvalue, hvalueClass⟩ := hfacts
  have hclasses : ∀ key, ¬ (type ∈ classTypes ∧ key = "body") := fun key hc => hclass hc.1
  have hwrites := writes_of_visited hsite.type hkeys hown
  have start := Underway.start type hsite hcompleted up .null
  unfold Visit.member
  rw [Places, ensures_bind]
  refine start.computed hsite hcompleted hshape hcomputed ?_
  cases hc : isComputed fields with
  | false =>
    rw [hc] at hkeys hwrites
    rw [if_neg (by decide)]
    refine (start.visitNode _ hvisit hsite hshape hvalue hvalueClass (by decide) (.inl rfl) (hready _) hcompleted
      (mode_of_visited _ hkeys (by simp) (hlist _)) (hclasses _) hsite.sameParent).mono fun _ s' h => ?_
    refine h.finish hsite hkeys (by simp) (by simp [hframes]) ?_ fun hc => absurd hc hclass
    simp [hwrites, happart]
  | true =>
    rw [hc] at hkeys hwrites
    rw [if_pos rfl, ensures_bind]
    refine (start.visitNode _ hvisit hsite hshape hkey hkeyClass (by decide) (.inl rfl) (hready _) hcompleted
      (mode_of_visited _ hkeys (by simp) (hlist _)) (hclasses _) hsite.sameParent).mono fun _ s₁ h => ?_
    have hparent : SameParent (some s₁.focus) (some (.obj fields)) := by
      have htrue : Fields.get? "computed" fields = some (.bool true) := by
        rcases isComputed_eq hsite hshape hcomputed with ⟨-, hn⟩ | ⟨b, hb, hbc⟩
        · rw [hc] at hn; cases hn
        · rw [hb, ← hbc, hc]
      have hget := h.get?_inert (by decide) (Fields.get?_of_type? hsite.type) rfl (by decide)
      have hflag := h.get?_inert (by decide) htrue rfl (by decide)
      obtain ⟨kind, hkind⟩ := Json.fits_text (hsite.proper.fits _ hsite.type hshape hkind)
      have hkind' := h.get?_inert (by decide) hkind rfl (by decide)
      obtain ⟨seen, made, fs, c, rfl, hp⟩ := h
      refine .of_nameFromParent fun classes => ?_
      rw [Tree.bare_obj] at hget hflag hkind' ⊢
      rw [nameFromParent_computed hsite.type htype htrue, nameFromParent_computed (Fields.type?_of_get? hget) htype hflag,
        Json.field, hkind', Json.field, show (Json.obj fields).get? "kind" = _ from hkind]
    refine (h.visitNode _ hvisit hsite hshape hvalue hvalueClass (by decide) (.inl rfl) (hready _) hcompleted
      (mode_of_visited _ hkeys (by simp) (hlist _)) (hclasses _) hparent).mono fun _ s' h => ?_
    refine h.finish hsite hkeys (by simp) (by simp [hframes]) ?_ fun hc => absurd hc hclass
    simp [hwrites, happart]

/-! ## Probes around trees -/

theorem bare_comp_ofJson : Tree.bare ∘ Tree.ofJson = id := funext Tree.bare_ofJson

theorem bare_comp_ofProbe : Tree.bare ∘ Tree.ofProbe = id := funext Tree.bare_ofProbe

theorem bare_around (name : String) (arguments : List Json) (t : Tree) :
    (Probe.around name arguments t).bare = wrapped name arguments t.bare := by
  simp [Probe.around, Probe.node, wrapped, Json.callOf, bare_comp_ofProbe]

/-! ## Returns -/

theorem Site.bare (hsite : Site s type fields) : s.focus.bare = .obj fields := by
  obtain ⟨seen, hfocus⟩ := hsite.focus
  rw [hfocus, Tree.bare_obj, Fields.mapValues_mapValues, bare_comp_ofJson, Fields.mapValues_id]

/-- Setting a field that is missing is completing the fields and putting a value in its place. -/
theorem set_eq_adjust_append {α : Type} {key : String} {values : Fields α} (h : key ∉ Fields.names values) (v t : α) :
    Fields.set key t values = Fields.adjust key t (values ++ [(key, v)]) := by
  induction values with
  | nil => simp [Fields.set, Fields.adjust]
  | cons p rest ih =>
    simp only [Fields.names, List.map_cons, List.mem_cons, not_or] at h
    have hne : ¬ p.1 = key := fun e => h.1 e.symm
    rw [Fields.set, if_neg hne, ih h.2]
    simp [Fields.adjust, hne]

/-- A `return` without an argument. -/
theorem places_return_nothing (hsite : Site s "ReturnStatement" fields)
    (hnone : Fields.get? "argument" fields = none ∨ Fields.get? "argument" fields = some .null) :
    Places .visited (Visit.returnStatement visit) s.classes up (.obj fields) [] (Json.obj fields).writes s := by
  obtain ⟨seen, hfocus⟩ := hsite.focus
  have hget : Fields.get? "argument" (Fields.mapValues Tree.ofJson fields) = none ∨
      Fields.get? "argument" (Fields.mapValues Tree.ofJson fields) = some .null := by
    rw [Fields.get?_mapValues]
    rcases hnone with h | h <;> rw [h]
    · exact .inl rfl
    · exact .inr rfl
  have hcompleted : Fields.get? "argument" (completed "ReturnStatement" fields) = some .null := by
    rcases hnone with h | h
    · rw [completed, if_pos ⟨rfl, h⟩, Fields.get?_append, h]; rfl
    · rw [completed, if_neg (by simp [h]), if_neg (by simp [functionTypes]), h]
  have hset : ∀ t : Tree, Fields.set "argument" t (Fields.mapValues Tree.ofJson fields) =
      Fields.adjust "argument" t (Fields.mapValues Tree.ofJson (completed "ReturnStatement" fields)) := by
    intro t
    rcases hnone with h | h
    · have happend : Fields.mapValues Tree.ofJson (fields ++ [("argument", .null)]) =
          Fields.mapValues Tree.ofJson fields ++ [("argument", .null)] := List.map_append
      rw [completed, if_pos ⟨rfl, h⟩, happend]
      refine set_eq_adjust_append ?_ _ t
      rw [Fields.names_mapValues]
      exact Fields.get?_eq_none.1 h
    · rw [completed, if_neg (by simp [h]), if_neg (by simp [functionTypes])]
      refine Fields.set_eq_adjust t ?_ ?_
      · rw [Fields.names_mapValues]; exact hsite.proper.nodup
      · rw [Fields.names_mapValues]; exact Fields.mem_names_of_get? h
  have hkeys : visitedFields "ReturnStatement" fields = some ["argument"] := by
    simp [visitedFields, ofGroup, visitTable, functionTypes]
  have hwrites : (Json.obj fields).writes = [] := by
    rw [writes_of_visited hsite.type hkeys (by decide)]
    simp [isApart, apartTable, ofGroup, functionTypes, loopTypes, writesIn_eq_nil hnone]
  have hp := (Progress.start s.code s.classes up "ReturnStatement" .null fields).skip "argument" (by decide)
    (fun v hv => ⟨by rw [hcompleted] at hv; cases hv; rfl, readyField_of_type (by decide) v⟩)
    (mode_of_visited _ hkeys (by decide) (by decide))
  unfold Visit.returnStatement
  rw [Places, ensures_bind]
  refine ensures_child?_none hfocus hget (ensures_optional (P := fun s' => s = s') (ensures_pure.2 rfl) ?_)
  rintro _ rfl
  rw [ensures_bind]
  have hnode : (Tree.obj seen (Fields.mapValues Tree.ofJson fields)).isNode = true := by
    have h := Tree.isNode_ofJson (.obj fields)
    rw [Tree.ofJson_obj] at h
    exact h.trans hsite.isNode
  refine ensures_line hsite.parts hfocus hnode hsite.isNode (by rw [← hfocus, hsite.bare]) fun line hline => ?_
  rw [ensures_bind]
  refine ensures_child?_none hfocus hget ?_
  simp only [Option.isSome_none, Bool.false_eq_true, if_false, pure_bind, ensures_setField]
  refine ⟨_, s.counter, by rw [hwrites, Queue.push_nil], ?_⟩
  have hframe := hp.frame "argument" (by decide) hcompleted (t := Probe.result line (.ofProbe .voidZero)) (by
    rw [Probe.result, bare_around, Tree.bare_ofProbe]
    exact .result line .null hline)
  rw [hfocus, Tree.setField_obj, hset]
  refine hframe.finish hsite.type hsite.proper (fun hc => absurd hc (by decide)) (fun key _ hk => ?_) (fun key _ hk => ?_) seen
  · exact ⟨mode_of_not_visited hkeys hk, readyField_of_not_visited hkeys hk⟩
  · exact frameKind_of_not_mem hk

theorem places_return (hvisit : visit.Sound) (hsite : Site s "ReturnStatement" fields) :
    Places .visited (Visit.returnStatement visit) s.classes up (.obj fields) [] (Json.obj fields).writes s := by
  rcases Json.fits_optional (hsite.proper.fits "argument" hsite.type rfl rfl) with hnone | hnull |
    ⟨afields, atype, hargument, hatype, hmem⟩
  · exact places_return_nothing hsite (.inl hnone)
  · exact places_return_nothing hsite (.inr hnull)
  have hcompleted : completed "ReturnStatement" fields = fields := by
    rw [completed, if_neg (by simp [hargument]), if_neg (by simp [functionTypes])]
  have hkeys : visitedFields "ReturnStatement" fields = some ["argument"] := by
    simp [visitedFields, ofGroup, visitTable, functionTypes]
  have hmode := mode_of_visited "argument" hkeys (by decide) (by decide)
  have start := Underway.start "ReturnStatement" hsite hcompleted up .null
  unfold Visit.returnStatement
  rw [Places, ensures_bind]
  refine (start.visitOptional "argument" hvisit hsite rfl rfl (by decide) (by decide) (by decide) (.inl rfl)
    (readyField_of_type (by decide)) hcompleted hmode (by decide) hsite.sameParent).mono fun t s₁ ht => ?_
  refine ensures_optional ht fun s₂ h => ?_
  rw [ensures_bind]
  refine h.line hsite (by decide) fun line hline => ?_
  -- the argument has become a node again
  have hprepared : Fields.get? "argument" (prepared "ReturnStatement" fields) = some (.obj afields) := by
    rw [get?_prepared_eq, hcompleted, hargument, Option.map_some, readyField_of_type (by decide)]
  rw [ensures_bind]
  refine h.child?_visited (by decide) (by decide) hprepared fun t => ?_
  rw [Option.isSome_some, if_pos rfl, ensures_bind, ensures_place]
  intro t ht
  obtain ⟨out, hout⟩ := (h.rewrites (by decide) (by decide) hprepared ht).obj
  refine (h.setField hsite (by decide) (by decide) ht fun made => ?_).mono fun _ s' h => ?_
  · rw [Probe.result, bare_around, hout]
    exact .result line (.obj out) hline
  · refine h.finish hsite hkeys (by decide) (by decide) ?_ (fun hc => absurd hc (by decide))
    rw [writes_of_visited hsite.type hkeys (by decide)]
    simp [isApart, apartTable, ofGroup, functionTypes, loopTypes]

end Rules

end ScriptTrace
