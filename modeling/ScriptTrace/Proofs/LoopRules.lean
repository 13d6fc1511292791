import ScriptTrace.Proofs.NodeRules

/-!
# Rules for branches and loops

* `places_branch` : the test is framed, and the branches are blocks;
* `places_loop` : a record of every iteration at the start of the body;
* `places_countedLoop` : records of the initializer, the test and the update.
-/

namespace ScriptTrace

open Rewriting Step

section Rules

variable {s : Pass} {up : Option Json} {type : String} {fields : Fields Json} {visit : Visitor}

theorem readyField_branch {key : String} (h : key ∈ ["consequent", "alternate"]) (v : Json) :
    readyField "IfStatement" key v = Rewriting.asBlock v := by
  rw [readyField, if_pos ⟨rfl, h⟩]

theorem bare_test (text : String) (line : Json) (t : Tree) :
    (Probe.test (.str text) line t).bare = wrapped Probe.testName [.literal (.str text), .literal line] t.bare :=
  bare_around Probe.testName _ t

theorem places_branch (hvisit : visit.Sound) (hsite : Site s "IfStatement" fields) :
    Places .visited (Visit.branch visit) s.classes up (.obj fields) [] (Json.obj fields).writes s := by
  have hcompleted : completed "IfStatement" fields = fields := completed_of_type (by decide)
  have hkeys : visitedFields "IfStatement" fields = some ["test", "consequent", "alternate"] := by
    simp [visitedFields, ofGroup, visitTable, functionTypes, classTypes]
  have hmode := fun key hkey => mode_of_visited key hkeys hkey (by simp)
  have htest : ∀ v, readyField "IfStatement" "test" v = v := readyField_eq_self (by decide)
  obtain ⟨test, _, hv, -, -⟩ := Json.fits_node (hsite.proper.fits "test" hsite.type rfl rfl)
  obtain ⟨body, btype, hbody, hbtype, hbmem⟩ :=
    Json.fits_node (hsite.proper.fits "consequent" hsite.type rfl rfl)
  have start := Underway.start "IfStatement" hsite hcompleted up .null
  unfold Visit.branch
  rw [Places, ensures_bind]
  refine (start.visitNode "test" hvisit hsite rfl rfl (by decide) (by decide) (.inl rfl) htest hcompleted
    (hmode _ (by decide)) (by decide) hsite.sameParent).mono fun _ s₁ h => ?_
  -- the test is framed
  rw [ensures_bind, ensures_place]
  intro t ht
  rw [ensures_bind]
  refine ensures_conditionText (h.parts hsite) fun text htext => ?_
  rw [h.code] at htext
  rw [ensures_bind]
  refine h.line hsite (by decide) fun line hline => ?_
  rw [ensures_bind]
  refine (h.setField hsite (by decide) (by decide) ht fun made => ?_).mono fun _ s₂ h => ?_
  · rw [bare_test]
    exact .test line t.bare text hline htext
  -- the branches are blocks
  rw [ensures_bind]
  refine (h.asBlock "consequent" hsite (by decide) (by decide) (.inr (by decide)) (readyField_branch (by decide))
    hcompleted hbody hbtype).mono fun _ s₃ h => ?_
  have hbstatement : (Json.obj body).isOneOf Grammar.statements = true :=
    Json.isOneOf_iff.2 ⟨body, btype, rfl, hbtype, hbmem⟩
  have hwrites : writesIn "test" fields = (Json.obj fields).writes := by
    rw [writes_of_visited hsite.type hkeys (by decide)]
    simp [isApart, apartTable, ofGroup, functionTypes]
  rw [ensures_bind]
  rcases or_assoc.2 (Json.fits_optional (hsite.proper.fits "alternate" hsite.type rfl rfl)) with hnothing |
    ⟨other, otype, hother, hotype, homem⟩
  · have hlook : ∀ {s' : Pass} {ready done : List String} {R : Option Tree → Pass → Prop},
        Underway s up "IfStatement" .null fields ready done ["test"] ([] ++ writesIn "test" fields) s' →
        "alternate" ∉ done → "alternate" ∉ ready → R none s' → Ensures (child? "alternate") s' R := by
      intro s' ready done R h hdone hkey hR
      refine h.child? hdone hkey hcompleted (fun _ => hR) fun v hv hnull => ?_
      rcases hnothing with hn | hn <;> rw [hn] at hv <;> cases hv
      exact absurd rfl hnull
    refine hlook h (by decide) (by decide) ?_
    refine ensures_optional (c := false) (P := Underway s up "IfStatement" .null fields ["consequent"] ["test"] ["test"]
      ([] ++ writesIn "test" fields)) (ensures_pure.2 h) fun s₄ h => ?_
    rw [ensures_bind]
    refine (h.visitBlock hvisit hsite (by decide) (by decide) (.inr (by decide)) (readyField_branch (by decide))
      hcompleted (hmode _ (by decide)) (by decide) (h.sameParent hsite (by decide) (by decide)) hbody hbstatement).mono
      fun _ s₅ h => ?_
    rw [ensures_bind]
    refine hlook h (by decide) (by decide) (ensures_pure.2 ?_)
    have h := h.skip "alternate" (by decide) (by decide) hcompleted (hmode _ (by decide))
      (inert_of_nothing hnothing (readyField_branch (by decide) _))
    exact h.finish hsite hkeys (by decide) (by decide) hwrites fun hc => absurd hc (by decide)
  · have hostatement : (Json.obj other).isOneOf Grammar.statements = true :=
      Json.isOneOf_iff.2 ⟨other, otype, rfl, hotype, homem⟩
    refine h.child? (by decide) (by decide) hcompleted (fun hn => ?_) fun v _ _ => ?_
    · rcases hn with hn | hn <;> rw [hn] at hother <;> cases hother
    refine ensures_optional (c := true) (h.asBlock "alternate" hsite (by decide) (by decide) (.inr (by decide))
      (readyField_branch (by decide)) hcompleted hother hotype) fun s₄ h => ?_
    rw [ensures_bind]
    refine (h.visitBlock hvisit hsite (by decide) (by decide) (.inr (by decide)) (readyField_branch (by decide))
      hcompleted (hmode _ (by decide)) (by decide) (h.sameParent hsite (by decide) (by decide)) hbody hbstatement).mono
      fun _ s₅ h => ?_
    have hprepared : Fields.get? "alternate" (prepared "IfStatement" fields) = some (Rewriting.asBlock (.obj other)) := by
      rw [get?_prepared_eq, hcompleted, hother, Option.map_some, readyField_branch (by decide)]
    rw [ensures_bind]
    refine h.child?_ready (by decide) (by decide) hprepared (asBlock_proper (hsite.proper.field hother) hostatement).2
      fun t => ?_
    rw [Option.isSome_some, if_pos rfl]
    refine (h.visitBlock hvisit hsite (by decide) (by decide) (.inr (by decide)) (readyField_branch (by decide))
      hcompleted (hmode _ (by decide)) (by decide) (h.sameParent hsite (by decide) (by decide)) hother hostatement).mono
      fun _ s' h => ?_
    exact h.finish hsite hkeys (by decide) (by decide) hwrites fun hc => absurd hc (by decide)

/-! ## Loops -/

/-- What a header holds: a node that is visited by itself, or nothing to visit. -/
theorem header_value {key : String} {slots : List (String × Slot)} (hsite : Site s type fields)
    (hshape : Grammar.shape type = some slots) (hkey : key ≠ "loc" ∧ key ≠ "range")
    (hslot : ∀ slot, Fields.get? key slots = some slot → ∃ types, (slot = .node types ∨ slot = .optional types) ∧
      ∀ t ∈ boundTypes, t ∉ types) (v : Json) (hv : Fields.get? key fields = some v) :
    v.isInert = true ∨ v.isNode = true ∧ v.isOneOf boundTypes = false := by
  cases hs : Fields.get? key slots with
  | none =>
    refine .inl (hsite.proper.inert hsite.type hv hkey fun slots' slot hshape' hslot' => ?_)
    rw [hshape] at hshape'
    cases hshape'
    rw [hs] at hslot'
    cases hslot'
  | some slot =>
    obtain ⟨types, hform, hbound⟩ := hslot slot hs
    have hfits := hsite.proper.fits _ hsite.type hshape hs
    have hnode : v = .null ∨ v.isOneOf types = true := by
      rcases hform with rfl | rfl
      · obtain ⟨vfields, vtype, he, hvtype, hmem⟩ := Json.fits_node hfits
        rw [hv] at he
        cases he
        exact .inr (Json.isOneOf_iff.2 ⟨vfields, vtype, rfl, hvtype, hmem⟩)
      · rcases Json.fits_optional hfits with he | he | ⟨vfields, vtype, he, hvtype, hmem⟩ <;> rw [hv] at he <;> cases he
        · exact .inl rfl
        · exact .inr (Json.isOneOf_iff.2 ⟨vfields, vtype, rfl, hvtype, hmem⟩)
    rcases hnode with rfl | hnode
    · exact .inl rfl
    · refine .inr ⟨?_, not_bound_of_isOneOf hnode hbound⟩
      obtain ⟨vfields, vtype, rfl, hvtype, -⟩ := Json.isOneOf_iff.1 hnode
      exact Json.isNode_of_type? (j := .obj vfields) hvtype

/-- The variables of an iteration are those of the left side as it was written. -/
theorem Rewrites.iterationProbes_eq {code : Option String} {classes : List Json} {v w line : Json}
    (h : Rewrites code .visited classes up v w) : Visit.iterationProbes line w = Visit.iterationProbes line v := by
  have hnode := h.isNode_eq
  have htargets := h.targetsOf_eq (by decide)
  cases hv : v.isNode with
  | false =>
    rw [Visit.iterationProbes, Visit.iterationProbes, hnode, hv]
    rfl
  | true =>
    cases v with
    | obj fields =>
      have htype? : ∃ type, Fields.type? fields = some type := by
        cases h with
        | value _ _ _ hn => rw [hv] at hn; cases hn
        | node _ _ type _ _ _ _ htype => exact ⟨type, htype⟩
      obtain ⟨type, htype⟩ := htype?
      obtain ⟨out, rfl⟩ := h.obj
      have htype' : Fields.type? out = some type := h.type?_eq.trans htype
      simp only [Visit.iterationProbes, hnode, hv, Bool.not_true, Bool.false_eq_true, if_false,
        Json.hasType_json htype, Json.hasType_json htype', ok_bind, htargets]
      by_cases hdecl : type = "VariableDeclaration"
      · subst hdecl
        rw [h.declaredNames_eq htype]
      · rw [beq_false_of_ne hdecl]
        rfl
    | _ => cases hv

theorem places_loop (hvisit : visit.Sound) (htype : type ∈ loopTypes) (hsite : Site s type fields) :
    Places .visited (Visit.loop visit type) s.classes up (.obj fields) [] (Json.obj fields).writes s := by
  have hfacts : completed type fields = fields ∧ visitedFields type fields = some ["left", "right", "test", "body"] ∧
      type ∉ classTypes ∧ (∀ v, readyField type "body" v = Rewriting.asBlock v) ∧ frameKind type "body" = .iteration ∧
      frameKeys type = ["body"] ∧ (∀ key ∈ ["left", "right", "test", "body"], isApart type key = true) ∧
      type ∉ ["AssignmentExpression", "UpdateExpression", "VariableDeclarator"] ∧
      type ∉ ["VariableDeclarator", "AssignmentExpression", "Property", "MethodDefinition"] ∧
      (∀ key, (type, key) ∉ [("Program", "body"), ("BlockStatement", "body"), ("SwitchCase", "consequent")]) ∧
      ∃ slots, Grammar.shape type = some slots ∧ Fields.get? "body" slots = some (.node Grammar.statements) ∧
        ∀ key ∈ ["left", "right", "test"], ∀ slot, Fields.get? key slots = some slot →
          ∃ types, (slot = .node types ∨ slot = .optional types) ∧ ∀ t ∈ boundTypes, t ∉ types := by
    simp only [loopTypes, List.mem_cons, List.not_mem_nil, or_false] at htype
    rcases htype with rfl | rfl | rfl | rfl
    all_goals
      refine ⟨completed_of_type (by decide), by simp [visitedFields, ofGroup, visitTable, functionTypes, classTypes, loopTypes],
        by decide, fun v => by simp [readyField, loopTypes], rfl, rfl, by decide, by decide, by decide, fun key => by simp,
        _, rfl, rfl, ?_⟩
    all_goals
      intro key hkey slot hslot
      simp only [List.mem_cons, List.not_mem_nil, or_false] at hkey
      rcases hkey with rfl | rfl | rfl <;> cases hslot <;> exact ⟨_, .inl rfl, by decide⟩
  obtain ⟨hcompleted, hkeys, hclass, hbodyReady, hkind, hframes, happart, hown, hnaming, hlist, slots, hshape, hbodySlot,
    hheader⟩ := hfacts
  obtain ⟨body, btype, hbody, hbtype, hbmem⟩ := Json.fits_node (hsite.proper.fits _ hsite.type hshape hbodySlot)
  have hbstatement : (Json.obj body).isOneOf Grammar.statements = true :=
    Json.isOneOf_iff.2 ⟨body, btype, rfl, hbtype, hbmem⟩
  have hmode := fun key hkey => mode_of_visited key hkeys hkey (hlist key)
  have start := Underway.start type hsite hcompleted up .null
  unfold Visit.loop
  rw [Places, ensures_bind]
  refine (start.visitHeader "left" hvisit hsite (by decide) (by decide) (.inl rfl) (readyField_eq_self (by decide))
    hcompleted (hmode _ (by decide)) hclass hsite.sameParent
    (header_value hsite hshape (by decide) (hheader _ (by decide)))).mono fun _ s₁ h => ?_
  rw [ensures_bind]
  refine (h.visitHeader "right" hvisit hsite (by decide) (by decide) (.inl rfl) (readyField_eq_self (by decide))
    hcompleted (hmode _ (by decide)) hclass (h.sameParent hsite hnaming (by decide))
    (header_value hsite hshape (by decide) (hheader _ (by decide)))).mono fun _ s₂ h => ?_
  rw [ensures_bind]
  refine (h.visitHeader "test" hvisit hsite (by decide) (by decide) (.inl rfl) (readyField_eq_self (by decide))
    hcompleted (hmode _ (by decide)) hclass (h.sameParent hsite hnaming (by decide))
    (header_value hsite hshape (by decide) (hheader _ (by decide)))).mono fun _ s₃ h => ?_
  rw [ensures_bind]
  refine (h.asBlock "body" hsite (by decide) (by decide) (.inl rfl) hbodyReady hcompleted hbody hbtype).mono
    fun _ s₄ h => ?_
  rw [ensures_bind]
  refine (h.visitBlock hvisit hsite (by decide) (by decide) (.inl rfl) hbodyReady hcompleted (hmode _ (by decide)) hclass
    (h.sameParent hsite hnaming (by decide)) hbody hbstatement).mono fun _ s₅ h => ?_
  -- the records of an iteration
  rw [ensures_bind]
  refine h.line hsite (by decide) fun line hline => ?_
  rw [ensures_bind]
  refine h.plainField hsite ?_
  rw [ensures_bind, ensures_lift]
  intro probes hprobes
  have hleft := h.field_rewrites "left" (by decide) (by decide) (readyField_eq_self (by decide)) hcompleted
    (hmode _ (by decide)) hclass
  rw [hleft.iterationProbes_eq] at hprobes
  obtain ⟨hbproper, hblock⟩ := asBlock_proper (hsite.proper.field hbody) hbstatement
  obtain ⟨block, btype', hbeq, hbtype', hbmem'⟩ := Json.isOneOf_iff.1 (show (Rewriting.asBlock (.obj body)).isOneOf
    ["BlockStatement"] = true by rw [Json.isOneOf, hblock]; rfl)
  obtain rfl := List.mem_singleton.1 hbmem'
  have hprepared : Fields.get? "body" (prepared type fields) = some (.obj block) := by
    rw [get?_prepared_eq, hcompleted, hbody, Option.map_some, hbodyReady, hbeq]
  refine (h.changeBody hsite (by decide) (by decide) hprepared hbtype' (hbeq ▸ hbproper) (hmode _ (by decide))
    (g := (Probe.statement "loop" line [("loopType", .literal (.str (Visit.loopTag type)))] :: probes ++ ·))
    (fun ts => ?_) (fun made w _ => ?_) (by decide)).mono fun _ s' h => ?_
  · rw [List.map_append, List.map_map, bare_comp_ofProbe, List.map_id]
  · rw [hkind]
    exact .iteration line w probes hline hprobes
  · refine h.finish hsite hkeys (by decide) (by simp [hframes]) ?_ fun hc => absurd hc hclass
    rw [writes_of_visited hsite.type hkeys hown, List.filter_eq_nil_iff.2 fun key hkey => by simp [happart key hkey]]
    rfl

/-! ## Counted loops -/

theorem bare_followed (t : Tree) (probe : Json) : (Probe.followed t probe).bare = sequenceOf t.bare probe := by
  simp [Probe.followed, Probe.node, sequenceOf]

section Counted

variable {name line : Json} {ready done framed : List String} {records : List Json} {s₀ : Pass}

/-- Whether a field that was visited holds a node. -/
theorem Underway.child?_isNode (hsite : Site s₀ type fields) (h : Underway s₀ up type name fields ready done framed records s)
    {key : String} {R : Option Tree → Pass → Prop}
    (hR : ∀ o, (o.map Tree.isNode).getD false = (Json.field key s.focus.bare).isNode → R o s) :
    Ensures (Step.child? key) s R := by
  obtain ⟨seen, made, fs, c, rfl, hp⟩ := h
  have hfield : Json.field key (Tree.obj seen fs).bare = ((Tree.obj seen fs).field key).bare := (bare_field ..).symm
  cases ht : Fields.get? key fs with
  | none =>
    refine ensures_child?_none rfl (.inl ht) (hR none ?_)
    rw [hfield, Tree.field, ht]
    rfl
  | some t =>
    rw [field_of_get? ht] at hfield
    cases hshared : t.isShared with
    | false =>
      by_cases hnull : t = .null
      · subst hnull
        exact ensures_child?_none rfl (.inr ht) (hR none (by rw [hfield]; rfl))
      · exact ensures_child?_some rfl ht hnull hshared (hR _ (by rw [hfield, isNode_bare]; rfl))
    | true =>
      cases t with
      | shared k =>
        unfold Step.child?
        rw [ensures_bind, ensures_focus]
        simp only [ht, resolve, ensures_bind, ensures_get, ensures_pure]
        exact hR _ (by rw [hfield, hsite.parts]; rfl)
      | _ => cases hshared

/-- The frame of an initializer. -/
theorem Underway.loopInit (hsite : Site s₀ "ForStatement" fields)
    (h : Underway s₀ up "ForStatement" name fields ready done [] records s) (hdone : "init" ∈ done)
    (hcompleted : completed "ForStatement" fields = fields) (hline : Node.line (.obj fields) = .ok line)
    (hmode : mode "ForStatement" fields "init" = .visited) :
    Ensures (Visit.loopInit line) s fun _ s' =>
      Underway s₀ up "ForStatement" name fields ready done ["init"] records s' := by
  have hkind : frameKind "ForStatement" "init" = .init := rfl
  have hready : ∀ v, readyField "ForStatement" "init" v = v := readyField_eq_self (by decide)
  have hrw := h.field_rewrites _ hdone (by decide) hready hcompleted hmode (by decide)
  unfold Visit.loopInit
  rw [ensures_bind]
  refine h.plainField hsite ?_
  rw [ensures_if]
  refine ⟨fun hn => ?_, fun hn => ?_⟩
  · have hn : (Json.field "init" (.obj fields)).isNode = false := by
      rw [← hrw.isNode_eq]
      simpa using hn
    refine ensures_pure.2 (h.frameSelf _ (by decide) fun made w => ?_)
    rw [hkind]
    exact .noInit w hn
  -- the initializer is a node
  rcases or_assoc.2 (Json.fits_optional (hsite.proper.fits "init" hsite.type rfl rfl)) with hnothing |
    ⟨init, itype, hinit, hitype, -⟩
  · rw [hrw.isNode_eq] at hn
    rcases hnothing with hv | hv <;> simp [Json.field, Json.get?, hv, Json.isNode, layer, Json.layerOf, Layer.isNode] at hn
  have hfield : Json.field "init" (.obj fields) = .obj init := by simp [Json.field, Json.get?, hinit]
  rw [hfield] at hrw
  have hprepared : Fields.get? "init" (prepared "ForStatement" fields) = some (.obj init) := by
    rw [get?_prepared_eq, hcompleted, hinit, Option.map_some, hready]
  have htype? : (Json.field "init" (.obj fields)).type? = some itype := by rw [hfield]; exact hitype
  obtain ⟨out, hout⟩ := hrw.obj
  rw [hout] at hrw ⊢
  have hotype : Fields.type? out = some itype := hrw.type?_eq.trans hitype
  rw [ensures_bind, ensures_lift, Json.hasType_json hotype]
  rintro _ ⟨⟩
  by_cases hdecl : itype = "VariableDeclaration"
  · subst hdecl
    rw [if_pos (by decide), ensures_bind, ensures_lift, hrw.declaredNames_eq hitype]
    intro names hnames
    rw [← hfield] at hnames
    by_cases hnone : names = []
    · subst hnone
      refine ensures_pure.2 (h.frameSelf _ (by decide) fun made w => ?_)
      rw [hkind]
      exact .initNothing w htype? hnames
    · rw [if_neg (by simpa using hnone), ensures_bind, ensures_freshNumber]
      have h : Underway s₀ up "ForStatement" name fields ready done [] records { s with counter := s.counter + 1 } := by
        obtain ⟨seen, made, fs, c, rfl, hp⟩ := h
        exact ⟨seen, made, fs, c + 1, rfl, hp⟩
      refine h.changeList hsite hdone (by decide) hprepared (fun w hw => ?_)
        (g := (· ++ [Probe.initDeclarator (s.counter + 1) (names.map fun x => Probe.locals "declare" line [.named x])]))
        (fun ts => by simp) (fun made w _ => ?_) (by decide)
      · rw [hmode] at hw
        obtain ⟨ds, hds, -⟩ := Json.fits_list ((hsite.proper.field hinit).fits "declarations" hitype rfl rfl)
        obtain ⟨out', x, _, rfl, hx, hxs⟩ := hw.child hitype (by decide) hds
        have hvisited : mode "VariableDeclaration" init "declarations" = .visited := by
          simp [mode, visitedFields, ofGroup, visitTable, functionTypes, classTypes, loopTypes]
        rw [hvisited] at hxs
        cases hxs with
        | value _ _ _ _ hlist => exact absurd rfl (hlist ds)
        | items _ _ _ ws => exact ⟨out', ws, rfl, hx⟩
      · rw [hkind]
        exact .initDeclared line w _ names hline htype? hnames hnone
  · have hne : (Json.field "init" (.obj fields)).type? ≠ some "VariableDeclaration" := by
      rw [htype?]
      simpa using hdecl
    rw [if_neg (by simpa using hdecl), ensures_bind, ensures_lift, hrw.writtenTargets_eq (by decide), ← hfield]
    intro targets htargets
    cases targets with
    | nil =>
      rw [ensures_bind, ensures_place]
      intro t ht
      rw [ensures_bind]
      refine ensures_conditionText (h.parts hsite) fun text htext => ?_
      rw [h.code] at htext
      rw [pure_bind, ensures_bind, ensures_place]
      intro u hu
      rw [ht] at hu
      cases hu
      refine h.setField hsite hdone (by decide) ht fun made => ?_
      rw [hkind, bare_followed]
      exact .initShown line t.bare text hline hne htargets htext
    | cons target targets =>
      refine ensures_bind.2 (ensures_pure.2 (ensures_bind.2 (ensures_place.2 fun t ht => ?_)))
      refine h.setField hsite hdone (by decide) ht fun made => ?_
      rw [hkind, bare_followed]
      exact .initAssigned line t.bare _ hline hne htargets (by simp)

/-- The frame of an update. -/
theorem Underway.loopUpdate (hsite : Site s₀ "ForStatement" fields)
    (h : Underway s₀ up "ForStatement" name fields ready done framed records s) (hdone : "update" ∈ done)
    (hframed : "update" ∉ framed)
    (hcompleted : completed "ForStatement" fields = fields) (hline : Node.line (.obj fields) = .ok line)
    (hmode : mode "ForStatement" fields "update" = .visited) :
    Ensures (Visit.loopUpdate line) s fun _ s' =>
      Underway s₀ up "ForStatement" name fields ready done ("update" :: framed) records s' := by
  have hkind : frameKind "ForStatement" "update" = .update := rfl
  have hready : ∀ v, readyField "ForStatement" "update" v = v := readyField_eq_self (by decide)
  have hrw := h.field_rewrites _ hdone hframed hready hcompleted hmode (by decide)
  unfold Visit.loopUpdate
  rw [ensures_bind]
  refine h.plainField hsite ?_
  rw [ensures_if]
  refine ⟨fun hn => ?_, fun _ => ?_⟩
  · have hn : (Json.field "update" (.obj fields)).isNode = false := by
      rw [← hrw.isNode_eq]
      simpa using hn
    refine ensures_pure.2 (h.frameSelf _ hframed fun made w => ?_)
    rw [hkind]
    exact .noUpdate w hn
  · rw [ensures_bind, ensures_lift, hrw.writtenTargets_eq (by decide)]
    intro targets htargets
    cases targets with
    | nil =>
      refine ensures_pure.2 (h.frameSelf _ hframed fun made w => ?_)
      rw [hkind]
      exact .updateNothing w htargets
    | cons target targets =>
      rw [ensures_bind, ensures_place]
      intro t ht
      refine h.setField hsite hdone hframed ht fun made => ?_
      rw [hkind, bare_followed]
      exact .updated line t.bare _ hline htargets (by simp)

/-- The record of the test at the start of the body. -/
theorem Underway.loopTest (hsite : Site s₀ "ForStatement" fields)
    (h : Underway s₀ up "ForStatement" name fields ready done framed records s) (htest : "test" ∈ done)
    (hbody : "body" ∈ done) (hnot : "test" ∉ framed) (hframed : "body" ∉ framed)
    (hcompleted : completed "ForStatement" fields = fields) (hline : Node.line (.obj fields) = .ok line)
    (hmode : ∀ key ∈ ["test", "body"], mode "ForStatement" fields key = .visited) {block : Fields Json}
    (hprepared : Fields.get? "body" (prepared "ForStatement" fields) = some (.obj block))
    (hblock : Fields.type? block = some "BlockStatement") (hproper : (Json.obj block).Proper) :
    Ensures (Visit.loopTest line) s fun _ s' =>
      Underway s₀ up "ForStatement" name fields ready done ("body" :: framed) records s' := by
  have hkind : frameKind "ForStatement" "body" = .counted := rfl
  have hrw := h.field_rewrites _ htest hnot (readyField_eq_self (by decide)) hcompleted (hmode _ (by simp)) (by decide)
  unfold Visit.loopTest
  rw [ensures_bind]
  refine h.child?_isNode hsite fun o ho => ?_
  rw [ho, hrw.isNode_eq]
  cases hn : (Json.field "test" (.obj fields)).isNode with
  | false =>
    refine ensures_pure.2 (h.frameSelf _ hframed fun made w => ?_)
    rw [hkind]
    exact .uncounted w hn
  | true =>
    rw [if_pos rfl, ensures_bind]
    refine h.checkBody hbody hframed hprepared hblock hproper (hmode _ (by simp)) ?_
    rw [ensures_bind, ensures_place]
    intro t ht
    rw [ensures_bind]
    refine ensures_conditionText (h.parts hsite) fun text htext => ?_
    rw [h.code] at htext
    refine h.changeBody hsite hbody hframed hprepared hblock hproper (hmode _ (by simp))
      (g := (Probe.statement "test" line [("expression", .literal (.str text)), ("result", .literal (.bool true))] :: ·))
      (fun ts => by simp) (fun made w hmade => ?_) hnot
    rw [hkind]
    have hbare : Json.field "test" (.obj made) = t.bare := by
      have hget : Json.get? "test" s.focus.bare = some t.bare := by
        obtain ⟨seen, made, fs, c, rfl, hp⟩ := h
        rw [layer_obj, Layer.require_obj] at ht
        rw [Tree.bare_obj]
        exact (Fields.get?_mapValues ..).trans (by rw [ht]; rfl)
      rw [hget] at hmade
      simp [Json.field, Json.get?, hmade]
    exact .counted line w text hline hn (hbare ▸ htext)

end Counted

theorem places_countedLoop (hvisit : visit.Sound) (hsite : Site s "ForStatement" fields) :
    Places .visited (Visit.countedLoop visit) s.classes up (.obj fields) [] (Json.obj fields).writes s := by
  have hcompleted : completed "ForStatement" fields = fields := completed_of_type (by decide)
  have hkeys : visitedFields "ForStatement" fields = some ["init", "test", "update", "body"] := by
    simp [visitedFields, ofGroup, visitTable, functionTypes, classTypes, loopTypes]
  have hmode := fun key hkey => mode_of_visited key hkeys hkey (by simp)
  have hbodyReady : ∀ v, readyField "ForStatement" "body" v = Rewriting.asBlock v := fun v => by simp [readyField]
  have hheader : ∀ key ∈ ["init", "test", "update"], ∀ v, Fields.get? key fields = some v →
      v.isInert = true ∨ v.isNode = true ∧ v.isOneOf boundTypes = false := by
    intro key hkey
    simp only [List.mem_cons, List.not_mem_nil, or_false] at hkey
    rcases hkey with rfl | rfl | rfl <;> refine header_value hsite rfl (by decide) fun slot hslot => ?_ <;> cases hslot <;>
      exact ⟨_, .inr rfl, by decide⟩
  obtain ⟨body, btype, hbody, hbtype, hbmem⟩ := Json.fits_node (hsite.proper.fits "body" hsite.type rfl rfl)
  have hbstatement : (Json.obj body).isOneOf Grammar.statements = true :=
    Json.isOneOf_iff.2 ⟨body, btype, rfl, hbtype, hbmem⟩
  obtain ⟨hbproper, hblock⟩ := asBlock_proper (hsite.proper.field hbody) hbstatement
  obtain ⟨block, btype', hbeq, hbtype', hbmem'⟩ := Json.isOneOf_iff.1 (show (Rewriting.asBlock (.obj body)).isOneOf
    ["BlockStatement"] = true by rw [Json.isOneOf, hblock]; rfl)
  obtain rfl := List.mem_singleton.1 hbmem'
  have hprepared : Fields.get? "body" (prepared "ForStatement" fields) = some (.obj block) := by
    rw [get?_prepared_eq, hcompleted, hbody, Option.map_some, hbodyReady, hbeq]
  have start := Underway.start "ForStatement" hsite hcompleted up .null
  unfold Visit.countedLoop
  rw [Places, ensures_bind]
  refine start.line hsite (by decide) fun line hline => ?_
  rw [ensures_bind]
  refine (start.visitHeader "init" hvisit hsite (by decide) (by decide) (.inl rfl) (readyField_eq_self (by decide))
    hcompleted (hmode _ (by decide)) (by decide) hsite.sameParent (hheader _ (by decide))).mono fun _ s₁ h => ?_
  rw [ensures_bind]
  refine (h.visitHeader "test" hvisit hsite (by decide) (by decide) (.inl rfl) (readyField_eq_self (by decide))
    hcompleted (hmode _ (by decide)) (by decide) (h.sameParent hsite (by decide) (by decide)) (hheader _ (by decide))).mono
    fun _ s₂ h => ?_
  rw [ensures_bind]
  refine (h.visitHeader "update" hvisit hsite (by decide) (by decide) (.inl rfl) (readyField_eq_self (by decide))
    hcompleted (hmode _ (by decide)) (by decide) (h.sameParent hsite (by decide) (by decide)) (hheader _ (by decide))).mono
    fun _ s₃ h => ?_
  rw [ensures_bind]
  refine (h.loopInit hsite (by decide) hcompleted hline (hmode _ (by decide))).mono fun _ s₄ h => ?_
  rw [ensures_bind]
  refine (h.loopUpdate hsite (by decide) (by decide) hcompleted hline (hmode _ (by decide))).mono fun _ s₅ h => ?_
  rw [ensures_bind]
  refine (h.asBlock "body" hsite (by decide) (by decide) (.inr (by decide)) hbodyReady hcompleted hbody hbtype).mono
    fun _ s₆ h => ?_
  rw [ensures_bind]
  refine (h.visitBlock hvisit hsite (by decide) (by decide) (.inr (by decide)) hbodyReady hcompleted (hmode _ (by decide))
    (by decide) (h.sameParent hsite (by decide) (by decide)) hbody hbstatement).mono fun _ s₇ h => ?_
  refine (h.loopTest hsite (by decide) (by decide) (by decide) (by decide) hcompleted hline
    (fun key hkey => hmode key (by simp_all; tauto)) hprepared hbtype' (hbeq ▸ hbproper)).mono fun _ s' h => ?_
  refine h.finish hsite hkeys (by decide) (by decide) ?_ fun hc => absurd hc (by decide)
  rw [writes_of_visited hsite.type hkeys (by decide)]
  simp [isApart, apartTable, ofGroup, functionTypes, loopTypes]

end Rules

end ScriptTrace
