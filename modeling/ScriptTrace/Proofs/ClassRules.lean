import ScriptTrace.Proofs.CallRules

/-!
# Rules for classes

* `ensures_name` : what a function or class expression is called;
* `ensures_classParts` : the base class is visited outside of the class, and the members inside;
* `places_classDeclaration`, `places_classExpression` : a declaration queues its record.
-/

namespace ScriptTrace

open Rewriting Step

section Rules

variable {s s₀ : Pass} {up : Option Json} {type key : String} {fields : Fields Json} {visit : Visitor}

/-! ## Names -/

theorem ensures_name {parent : Option Tree} {R : Json → Pass → Prop} (hparts : s.parts = [])
    (hR : ∀ name, functionName s.classes s.focus.bare (parent.map Tree.bare) = .ok name → R name s) :
    Ensures (Visit.name parent) s R := by
  unfold Visit.name
  cases parent <;>
    · simp only [ensures_bind, ensures_focus, ensures_plain, ensures_map, ensures_pure, ensures_get, ensures_lift, hparts,
        Tree.expand_nil]
      exact hR

/-- A function is named by its own name or by the node around it. -/
theorem functionName_congr {classes : List Json} {out : Fields Json}
    (h : Fields.get? "id" out = Fields.get? "id" fields) (up : Option Json) :
    functionName classes (.obj out) up = functionName classes (.obj fields) up := by
  simp only [functionName, optional_eq h]

/-! ## Classes -/

/-- A step inside a class on a field is a step on the field, inside the class. -/
theorem inClass_inField {α : Type} (name : Json) (key : String) (act : Step α) :
    inClass name (Step.inField key act) = Step.inField key (inClass name act) := by
  funext s
  change (Step.inClass name (Step.inField key act)).effect s = (Step.inField key (inClass name act)).effect s
  simp only [inClass, Step.inField, ofEffect, effect, ExceptT.run, ExceptT.mk, StateT.run]
  cases (layer s.focus).require key with
  | error e => rfl
  | ok t => cases t <;> rfl

theorem Underway.listFlag {name : Json} {ready done framed : List String} {records : List Json} {items : List Json}
    (h : Underway s₀ up type name fields ready done framed records s) (hdone : key ∉ done) (hkey : key ∉ ready)
    (hv : Fields.get? key (completed type fields) = some (.arr items)) {R : Bool → Pass → Prop} (hR : R (!items.isEmpty) s) :
    Ensures (flag key) s R := by
  obtain ⟨seen, made, fs, c, rfl, hp⟩ := h
  have hget : Fields.get? key fs = some (.ofJson (.arr items)) := by
    rw [hp.fresh key hdone, hp.waiting key hdone, if_neg hkey, hv]; rfl
  unfold flag
  rw [ensures_bind]
  refine ensures_child?_some rfl hget (by simp) (Tree.isShared_ofJson _) (ensures_pure.2 ?_)
  rw [Option.map_some, Option.getD_some, Tree.ofJson_arr, layer_arr, Layer.truthy, List.isEmpty_map]
  exact hR

theorem places_classBody (hvisit : visit.Sound) (hsite : Site s "ClassBody" fields) :
    Places .visited (do
      if ← flag "body" then
        let body ← focus
        discard (Step.inField "body" (eachItem (visit (some body))))) s.classes up (.obj fields) [] (Json.obj fields).writes s := by
  have hcompleted : completed "ClassBody" fields = fields := completed_of_type (by decide)
  have hkeys : visitedFields "ClassBody" fields = some ["body"] := by simp [visitedFields, ofGroup, visitTable]
  have hmode := mode_of_visited "body" hkeys (by decide) (by decide)
  have start := Underway.start "ClassBody" hsite hcompleted up .null
  obtain ⟨items, hitems, hall⟩ := Json.fits_list (hsite.proper.fits "body" hsite.type rfl rfl)
  have hbound : ∀ v ∈ items, v.isOneOf boundTypes = false := fun v hv => not_bound_of_isOneOf (hall v hv) (by decide)
  have hwrites : (Json.obj fields).writes = (Json.arr items).writes := by
    rw [writes_of_visited hsite.type hkeys (by decide)]
    simp [isApart, apartTable, ofGroup, functionTypes, loopTypes, writesIn, hitems]
  rw [Places, ensures_bind]
  refine start.listFlag (by decide) (by decide) (hcompleted ▸ hitems) ?_
  cases hempty : items.isEmpty with
  | true =>
    obtain rfl := List.isEmpty_iff.1 hempty
    have h := start.skip "body" (by decide) (by decide) hcompleted hmode fun v hv => by
      rw [hitems] at hv
      cases hv
      exact ⟨rfl, readyField_of_type (by decide) _⟩
    exact ensures_pure.2 (h.finish hsite hkeys (by decide) (by decide) (by rw [hwrites]; rfl) fun hc => absurd hc (by decide))
  | false =>
    rw [Bool.not_false, if_pos rfl, ensures_bind, ensures_focus, ensures_discard]
    refine (start.inField "body" (Json.arr items).writes hsite.proper (by decide) (.inl rfl)
      (fun _ => readyField_of_type (by decide)) fun v hv queue counter => ?_).mono fun _ s' h => ?_
    · rw [get?_prepared_eq, hcompleted, hitems, Option.map_some, readyField_of_type (by decide)] at hv
      cases hv
      rw [hmode, classesAt, if_neg (by decide)]
      have hstep := hvisit.items (s := { s with focus := .ofJson (.arr items), queue := queue, counter := counter })
        hsite.parts (Tree.ofJson_arr items) (fun v hv => (hsite.proper.field hitems).item hv)
        (fun v hv => not_part_of_not_bound (hbound v hv)) hsite.sameParent
      rwa [flatMap_declares fun v hv => not_class_of_not_bound (hbound v hv)] at hstep
    · exact h.finish hsite hkeys (by decide) (by decide) (by rw [hwrites]; rfl) fun hc => absurd hc (by decide)

/-- The parts of a class: the base class outside of it, and the members inside. -/
theorem ensures_classParts (hvisit : visit.Sound) (htype : type ∈ classTypes) (hsite : Site s type fields) (up : Option Json) (name : Json) :
    Ensures (Visit.classParts visit name) s fun _ s' =>
      Underway s up type name fields [] ["body", "superClass"] [] (Json.obj fields).writes s' := by
  have hfacts : completed type fields = fields ∧ visitedFields type fields = some ["superClass", "body"] ∧
      (∀ key v, readyField type key v = v) ∧ (∀ key, isApart type key = false) ∧
      type ∉ ["AssignmentExpression", "UpdateExpression", "VariableDeclarator"] ∧
      (∀ key, (type, key) ∉ [("Program", "body"), ("BlockStatement", "body"), ("SwitchCase", "consequent")]) ∧
      Grammar.shape type = some Grammar.classShape := by
    simp only [classTypes, List.mem_cons, List.not_mem_nil, or_false] at htype
    rcases htype with rfl | rfl
    all_goals
      exact ⟨completed_of_type (by decide), by simp [visitedFields, ofGroup, visitTable, functionTypes, classTypes],
        fun key => readyField_of_type (by decide),
        fun key => by simp [isApart, apartTable, ofGroup, functionTypes, loopTypes], by decide, fun key => by simp, rfl⟩
  obtain ⟨hcompleted, hkeys, hready, happart, hown, hlist, hshape⟩ := hfacts
  obtain ⟨body, btype, hbody, hbtype, hbmem⟩ :=
    Json.fits_node (show (Slot.node ["ClassBody"]).fits (Fields.get? "body" fields) = true from
      hsite.proper.fits "body" hsite.type hshape rfl)
  obtain rfl := List.mem_singleton.1 hbmem
  have start := Underway.start type hsite hcompleted up name
  unfold Visit.classParts
  rw [ensures_bind]
  refine (start.visitOptional "superClass" hvisit hsite hshape
    (show Fields.get? "superClass" Grammar.classShape = some (Slot.optional Grammar.expressions) from rfl)
    (by decide) (by decide) (by decide) (.inl rfl) (hready _) hcompleted (mode_of_visited _ hkeys (by decide) (hlist _))
    (by simp) hsite.sameParent).mono fun t s₁ ht => ?_
  refine ensures_optional ht fun s₂ h => ?_
  rw [inClass_inField]
  have hstep := h.inField "body" (Json.obj body).writes hsite.proper (by decide) (.inl rfl)
    (fun _ => hready _) (a := inClass name (do
      if ← flag "body" then
        let body ← focus
        discard (Step.inField "body" (eachItem (visit (some body)))))) fun v hv queue counter => ?_
  · have hwrites : (Json.obj fields).writes = [] ++ writesIn "superClass" fields ++ (Json.obj body).writes := by
      rw [writes_of_visited hsite.type hkeys hown]
      simp [happart, writesIn, hbody]
    rw [hwrites]
    exact hstep
  · rw [get?_prepared_eq, hcompleted, hbody, Option.map_some, hready] at hv
    cases hv
    rw [mode_of_visited _ hkeys (by decide) (hlist _), classesAt, if_pos ⟨htype, rfl⟩]
    exact (places_classBody (s := { s with focus := .ofJson (.obj body), queue := queue, classes := name :: s.classes, counter := counter })
      hvisit ⟨hsite.parts, hbtype, hsite.proper.field hbody, false, Tree.ofJson_obj body⟩).inClass

theorem places_classDeclaration (hvisit : visit.Sound) (hsite : Site s "ClassDeclaration" fields) :
    Places .visited (Visit.classDeclaration visit) s.classes up (.obj fields) (Json.obj fields).declares
      (Json.obj fields).writes s := by
  have hkeys : visitedFields "ClassDeclaration" fields = some ["superClass", "body"] := by
    simp [visitedFields, ofGroup, visitTable, functionTypes, classTypes]
  unfold Visit.classDeclaration
  rw [Places, ensures_bind]
  -- the name of the class
  have hname : Ensures Visit.className s fun name s' => s = s' ∧ className s.classes up "ClassDeclaration" fields = .ok name := by
    unfold Visit.className
    rw [ensures_bind, ensures_plainField, hsite.parts, Tree.expand_nil]
    obtain ⟨seen, hfocus⟩ := hsite.focus
    have hbare := hsite.bare
    rw [hfocus] at hbare ⊢
    rw [bare_field, hbare]
    cases hid : (Json.field "id" (.obj fields)).truthy with
    | true => exact ensures_lift.2 fun name hname => ⟨rfl, by simpa [className, hid] using hname⟩
    | false => exact ensures_pure.2 ⟨rfl, by simp [className, hid]⟩
  refine hname.mono fun name s' h => ?_
  obtain ⟨rfl, hname⟩ := h
  rw [ensures_bind]
  refine (ensures_classParts hvisit (by decide) hsite up name).mono fun _ s₁ h => ?_
  rw [ensures_bind]
  refine h.line hsite (by decide) fun line hline => ?_
  obtain ⟨t, c, rfl, hrw⟩ := h.finish hsite hkeys (by decide) (by decide) rfl fun _ => hname
  have hdeclares : (Json.obj fields).declares = [Probe.declared line name] := by
    have htype : Fields.type? fields = some "ClassDeclaration" := hsite.type
    rw [className, if_pos rfl] at hname
    simp only [Json.declares, if_pos htype, hline, hname, ok_bind, pure_eq_ok, answers]
  rw [ensures_queueBefore, hdeclares]
  refine ⟨t, c, ?_, hrw⟩
  simp [Queue.push]

theorem places_classExpression (hvisit : visit.Sound) {parent : Option Tree} (hparent : SameParent parent up)
    (hsite : Site s "ClassExpression" fields) :
    Places .visited (Visit.classExpression visit parent) s.classes up (.obj fields) [] (Json.obj fields).writes s := by
  have hkeys : visitedFields "ClassExpression" fields = some ["superClass", "body"] := by
    simp [visitedFields, ofGroup, visitTable, functionTypes, classTypes]
  unfold Visit.classExpression
  rw [Places, ensures_bind]
  refine ensures_name hsite.parts fun name hname => ?_
  rw [hsite.bare, hparent] at hname
  refine (ensures_classParts hvisit (by decide) hsite up name).mono fun _ s' h => ?_
  exact h.finish hsite hkeys (by decide) (by decide) rfl fun _ => by rw [className, if_neg (by decide)]; exact hname

end Rules

end ScriptTrace
