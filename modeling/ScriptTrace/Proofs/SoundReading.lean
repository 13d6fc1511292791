import ScriptTrace.Proofs.SoundProbes

/-!
# Reading sound values

What the functions that read a tree find in a sound one: names that are strings, targets that are expressions, lines
that are numbers, and conditions that have a text.

* `NodeOf.lineOf`, `NodeOf.endLineOf` : the lines of a node;
* `Json.Sound.bindingNames`, `Json.SoundOf.targetsOf`, `Json.Sound.writtenTargets` : the names a pattern binds, and the
  targets of an assignment or an expression;
* `functionName_text` : every function has a name;
* `Json.SoundOf.conditionText` : every condition has a text.
-/

namespace ScriptTrace

open Grammar

/-- Names that are strings. -/
abbrev Texts (names : List Json) : Prop := ∀ n ∈ names, n.IsText

section Nodes

variable {type key : String} {fields : Fields Json} {types : List String} {v : Json}

namespace NodeOf

/-- A field that any node may have. -/
theorem fits_common {slot : Slot} (h : NodeOf type fields) (hslot : (key, slot) ∈ common) :
    slot.fits (Fields.get? key fields) = true := by
  obtain ⟨slots, hshape⟩ := h.sound.proper.exists_shape h.type
  have hnode := h.sound.proper.isNodeOf h.type
  simp only [isNodeOf, hshape, Bool.and_eq_true, List.all_eq_true] at hnode
  exact hnode.1.1 (key, slot) (List.mem_append_right _ hslot)

/-- The name of an identifier is a string. -/
theorem exists_name (h : NodeOf "Identifier" fields) : ∃ s, (Layer.obj fields).require "name" = .ok (.str s) := by
  obtain ⟨s, hs⟩ := h.text "name" rfl
  exact ⟨s, Layer.require_of_get? hs⟩

theorem hasType (h : NodeOf type fields) (t : String) : Succeeds ((layer (Json.obj fields)).hasType t) fun b => b = (type == t) :=
  succeeds_of_eq (Json.hasType_json h.type t) rfl

theorem hasTypeIn (h : NodeOf type fields) (ts : List String) :
    Succeeds ((layer (Json.obj fields)).hasTypeIn ts) fun b => b = ts.contains type :=
  succeeds_of_eq (Json.hasTypeIn_json h.type ts) rfl

theorem flag (_ : NodeOf type fields) (key : String) : Succeeds ((layer (Json.obj fields)).flag key) fun b =>
    b = (Fields.get? key fields).any Json.truthy := by
  have hok : ∃ b, (layer (Json.obj fields)).flag key = .ok b := ⟨_, rfl⟩
  obtain ⟨b, hb⟩ := hok
  refine succeeds_of_eq hb ?_
  rw [← Json.flag_eq_ok hb, Json.field, Json.get?]
  cases Fields.get? key fields <;> rfl

/-- A field that holds a node. -/
theorem require (h : NodeOf type fields) (hslot : slotAt type key = some (.node types)) :
    Succeeds ((layer (Json.obj fields)).require key) (Json.SoundOf types) := by
  obtain ⟨v, hv, hnode⟩ := h.node _ hslot
  exact succeeds_of_eq (Layer.require_of_get? hv) hnode

/-- A field that holds a node, or nothing. -/
theorem readOptional (h : NodeOf type fields) (hslot : slotAt type key = some (.optional types)) :
    Succeeds ((layer (Json.obj fields)).optional key) fun o => ∀ v, o = some v → v.SoundOf types := by
  rintro v hv
  obtain ⟨hget, hnull⟩ := Option.filter_eq_some_iff.1 hv
  refine (h.optional _ hslot hget).resolve_left ?_
  rintro rfl
  cases hnull

/-- The name of an identifier. -/
theorem requireName (h : NodeOf "Identifier" fields) : Succeeds ((layer (Json.obj fields)).require "name") Json.IsText := by
  obtain ⟨s, hs⟩ := h.exists_name
  exact succeeds_of_eq hs ⟨s, rfl⟩

end NodeOf

/-! ## Lines -/

/-- The line at one end of a position, if this is known. -/
theorem lineAt_atom (which : String) (hwhich : which = "start" ∨ which = "end") (h : Slot.position.fits (some v) = true) :
    Succeeds (Node.lineAt which v) fun line => ∀ n, line = some n → n.isAtom = true := by
  unfold Node.lineAt
  refine ends_ite (fun _ => nofun) fun htruthy => ?_
  cases v with
  | obj position =>
    obtain ⟨hstart, hend⟩ := Bool.and_eq_true_iff.1 h
    have hplace : Slot.isPlace (Fields.get? which position) = true := by rcases hwhich with rfl | rfl <;> assumption
    cases hv : Fields.get? which position with
    | none => rw [hv] at hplace; cases hplace
    | some place =>
      rw [hv] at hplace
      cases place with
      | obj pfields =>
        obtain ⟨n, hline⟩ : ∃ n, Fields.get? "line" pfields = some (.int n) := by
          cases hget : Fields.get? "line" pfields with
          | none => simp [Slot.isPlace, hget] at hplace
          | some line => cases line <;> first | exact ⟨_, rfl⟩ | simp [Slot.isPlace, hget] at hplace
        have hfound : (layer (Json.obj position)).optional which = .ok (some (.obj pfields)) := by
          rw [layer_json_obj, Layer.optional, hv]
          rfl
        rw [hfound, ok_bind, Option.filter_some, if_pos (by cases pfields with | nil => cases hline | cons f fs => rfl)]
        change Succeeds (Except.ok (some (((Json.obj pfields).get? "line").getD (.int (-1))))) _
        rintro _ ⟨⟩
        rw [Json.get?, hline]
        rfl
      | _ => cases hplace
  | null => exact absurd rfl htruthy
  | _ => cases h

theorem NodeOf.fits_loc (h : NodeOf type fields) : Slot.position.fits (some (Json.field "loc" (.obj fields))) = true :=
  loc_fits h.sound.proper h.type

/-- The line in which a node starts. -/
theorem NodeOf.lineOf (h : NodeOf type fields) :
    Succeeds (Node.lineOf (Json.field "loc" (.obj fields))) fun line => line.isAtom = true := by
  refine (lineAt_atom "start" (.inl rfl) h.fits_loc).bind fun line hline => ?_
  cases line with
  | none => rfl
  | some n => exact hline n rfl

/-- The line in which a node ends. -/
theorem NodeOf.endLineOf (h : NodeOf type fields) :
    Succeeds (Node.endLineOf (Json.field "loc" (.obj fields))) fun line => line.isAtom = true := by
  refine (lineAt_atom "end" (.inr rfl) h.fits_loc).bind fun line hline => ?_
  cases line with
  | none => exact h.lineOf
  | some n => exact hline n rfl

/-! ## Bound names -/

/-- The names that a value binds as a pattern, and those that it binds as a member of an object pattern. -/
structure Binds (j : Json) : Prop where
  names : Succeeds (bindingNames j) Texts
  member : j.isOneOf ["Property", "RestElement"] = true → Succeeds (memberBinding j) Texts

theorem binds_flatten {f : Json → Except Fault (List Json)} {items : List Json} (h : ∀ x ∈ items, Succeeds (f x) Texts) :
    Succeeds (List.flatten <$> items.mapM f) Texts := by
  refine ends_map.2 ((ends_mapM h).mono fun names hnames n hn => ?_)
  obtain ⟨ns, hns, hn⟩ := List.mem_flatten.1 hn
  exact hnames ns hns n hn

/-- A node binds names if the values in its fields do. -/
theorem NodeOf.binds (h : NodeOf type fields)
    (ih : ∀ key v, Fields.get? key fields = some v → Binds v ∧ ∀ x ∈ v.items, Binds x) : Binds (.obj fields) := by
  have hfield (key : String) {types : List String} (hslot : slotAt type key = some (.node types)) :
      ∃ v, Fields.get? key fields = some (.obj v) ∧ Succeeds (bindingNames (.obj v)) Texts := by
    obtain ⟨v, hv, -, hone⟩ := h.node _ hslot
    obtain ⟨vfields, _, rfl, -, -⟩ := Json.isOneOf_iff.1 hone
    exact ⟨vfields, hv, (ih key _ hv).1.names⟩
  have hnames : Succeeds (bindingNames (.obj fields)) Texts := by
    by_cases hmem : type ∈ bindingTypes
    · simp only [bindingTypes, List.mem_cons, List.not_mem_nil, or_false] at hmem
      rcases hmem with rfl | rfl | rfl | rfl | rfl
      · obtain ⟨s, hs⟩ := h.text "name" rfl
        rw [bindingNames_identifier h.type hs]
        exact List.forall_mem_singleton.2 ⟨s, rfl⟩
      · obtain ⟨v, hv, hnames⟩ := hfield "left" rfl
        rwa [bindingNames_default h.type hv]
      · obtain ⟨v, hv, hnames⟩ := hfield "argument" rfl
        rwa [bindingNames_rest h.type hv]
      · obtain ⟨items, hv, -⟩ := h.gaps "elements" rfl
        rw [bindingNames_array h.type hv]
        exact binds_flatten fun x hx => ((ih _ _ hv).2 x hx).names
      · obtain ⟨items, hv, hitems⟩ := h.list "properties" rfl
        rw [bindingNames_object h.type hv]
        exact binds_flatten fun x hx => ((ih _ _ hv).2 x hx).member (hitems x hx).2
    · rw [bindingNames_other h.type hmem]
      exact List.forall_mem_nil _
  refine ⟨hnames, fun hone => ?_⟩
  obtain rfl | rfl : type = "Property" ∨ type = "RestElement" := by
    simpa [Json.isOneOf_obj h.type] using hone
  · obtain ⟨v, hv, hvalue⟩ := hfield "value" rfl
    rwa [memberBinding_property h.type (by decide) hv]
  · rwa [memberBinding_rest h.type]

theorem binds_of_sound (j : Json) (h : j.Sound) : Binds j ∧ ∀ x ∈ j.items, Binds x := by
  induction j using Json.ind with
  | scalar j hatom =>
    cases j <;> first
      | exact ⟨⟨List.forall_mem_nil _, fun h => absurd h Bool.false_ne_true⟩, List.forall_mem_nil _⟩
      | cases hatom
  | arr items ih =>
    exact ⟨⟨List.forall_mem_nil _, fun h => absurd h Bool.false_ne_true⟩, fun x hx => (ih x hx (h.item hx)).1⟩
  | obj fields ih =>
    refine ⟨?_, List.forall_mem_nil _⟩
    by_cases hnode : (Json.obj fields).isNode = true
    · obtain ⟨type, htype⟩ := h.proper.exists_type hnode
      exact NodeOf.binds ⟨h, htype⟩ fun key v hv => ih _ (Fields.mem_of_get? hv) (h.field hv)
    · have hget : Fields.get? "type" fields = none := by simpa [Json.isNode_obj] using hnode
      refine ⟨?_, fun hone => ?_⟩
      · have hlayer : (Layer.obj (Fields.mapValues (Json.annotate nameRule) fields)).isNode = false := by
          simp [Layer.isNode, hget]
        rw [bindingNames, Json.note_obj, nameRule, hlayer]
        exact List.forall_mem_nil _
      · rw [Json.isOneOf, Json.type?, Fields.type?, hget] at hone
        cases hone

theorem Json.Sound.bindingNames {j : Json} (h : j.Sound) : Succeeds (bindingNames j) Texts := (binds_of_sound j h).1.names

theorem allBindingNames_text {items : List Json} (h : ∀ x ∈ items, x.Sound) : Succeeds (allBindingNames items) Texts :=
  binds_flatten fun x hx => (h x hx).bindingNames

/-! ## Targets -/

/-- The root of a chain of members. -/
theorem rootOf_sound (j : Json) (h : j.Sound) (hnode : j.isNode = true) :
    Succeeds (rootOf j) fun o => ∀ t, o = some t → t.Sound := by
  induction j using Json.ind with
  | scalar j hatom => cases j <;> first | cases hnode | cases hatom
  | arr items ih => cases hnode
  | obj fields ih =>
    obtain ⟨type, htype⟩ := h.proper.exists_type hnode
    have hof : NodeOf type fields := ⟨h, htype⟩
    by_cases hmember : type = "MemberExpression"
    · subst hmember
      obtain ⟨v, hv, hsound, hone⟩ := hof.node "object" rfl
      rw [rootOf_member htype hv]
      obtain ⟨vfields, vtype, rfl, hvtype, -⟩ := Json.isOneOf_iff.1 hone
      exact ih _ (Fields.mem_of_get? hv) hsound (Json.isNode_of_type? (j := .obj vfields) hvtype)
    by_cases hthis : type = "ThisExpression"
    · subst hthis
      rw [rootOf_this htype]
      rintro t ⟨⟩
      exact ⟨⟨_, rfl⟩, this_sound.mono (by decide)⟩
    by_cases hident : type = "Identifier"
    · subst hident
      obtain ⟨s, hs⟩ := hof.text "name" rfl
      rw [rootOf_identifier htype hs]
      rintro t ⟨⟩
      exact Target.named_sound ⟨s, rfl⟩
    · rw [rootOf_other htype (by simp [hmember, hthis, hident])]
      exact nofun

/-- What is looked at after a value was written. -/
theorem Json.Sound.targetsOf {j : Json} (h : j.Sound) : Succeeds (targetsOf j) fun ts => ∀ t ∈ ts, t.Sound := by
  by_cases hnode : j.isNode = true
  · cases j with
    | obj fields =>
      obtain ⟨type, htype⟩ := h.proper.exists_type hnode
      rw [targetsOf_obj htype]
      split
      · next hident =>
        subst hident
        refine ends_map.2 ((NodeOf.requireName ⟨h, htype⟩).mono fun n hn => ?_)
        exact List.forall_mem_singleton.2 (Target.named_sound hn)
      split
      · exact ends_map.2 ((rootOf_sound _ h hnode).mono fun o ho t ht => ho t (Option.mem_toList.1 ht))
      split
      · refine ends_map.2 (h.bindingNames.mono fun names hnames t ht => ?_)
        obtain ⟨n, hn, rfl⟩ := List.mem_map.1 ht
        exact Target.named_sound (hnames n hn)
      · exact List.forall_mem_nil _
    | _ => cases hnode
  · rw [ScriptTrace.targetsOf]
    rw [if_pos (by simpa [Json.isNode] using hnode)]
    exact List.forall_mem_nil _

/-- The targets of the assignments and updates that an expression is a sequence of. -/
theorem writtenTargets_sound (j : Json) (h : j.Sound) : Succeeds (writtenTargets j) (fun ts => ∀ t ∈ ts, t.Sound) ∧
    ∀ x ∈ j.items, Succeeds (writtenTargets x) fun ts => ∀ t ∈ ts, t.Sound := by
  induction j using Json.ind with
  | scalar j hatom => cases j <;> first | exact ⟨List.forall_mem_nil _, List.forall_mem_nil _⟩ | cases hatom
  | arr items ih => exact ⟨List.forall_mem_nil _, fun x hx => (ih x hx (h.item hx)).1⟩
  | obj fields ih =>
    refine ⟨?_, List.forall_mem_nil _⟩
    by_cases hnode : (Json.obj fields).isNode = true
    · obtain ⟨type, htype⟩ := h.proper.exists_type hnode
      have hof : NodeOf type fields := ⟨h, htype⟩
      by_cases hassign : type = "AssignmentExpression"
      · subst hassign
        obtain ⟨v, hv, hsound, -⟩ := hof.node "left" rfl
        rw [writtenTargets_assignment htype hv]
        exact hsound.targetsOf
      by_cases hupdate : type = "UpdateExpression"
      · subst hupdate
        obtain ⟨v, hv, hsound, -⟩ := hof.node "argument" rfl
        rw [writtenTargets_update htype hv]
        exact hsound.targetsOf
      by_cases hsequence : type = "SequenceExpression"
      · subst hsequence
        obtain ⟨items, hv, -⟩ := hof.list "expressions" rfl
        rw [writtenTargets_sequence htype hv]
        refine ends_map.2 ((ends_mapM (ih _ (Fields.mem_of_get? hv) (h.field hv)).2).mono fun tss htss t ht => ?_)
        obtain ⟨ts, hts, ht⟩ := List.mem_flatten.1 ht
        exact htss ts hts t ht
      · rw [writtenTargets_other htype (by simp [hassign, hupdate, hsequence])]
        exact List.forall_mem_nil _
    · have hget : Fields.get? "type" fields = none := by simpa [Json.isNode_obj] using hnode
      have hlayer : (Layer.obj (Fields.mapValues (Json.annotate writtenRule) fields)).isNode = false := by
        simp [Layer.isNode, hget]
      rw [writtenTargets, Json.note_obj, writtenRule, hlayer]
      exact List.forall_mem_nil _

/-! ## Names of functions -/

/-- The name that a key gives. -/
theorem keyName_text (h : v.SoundOf types) (hkey : isWrittenKey v = true) :
    Succeeds (keyName v) fun o => ∀ n, o = some n → n.IsText := by
  obtain ⟨type, fields, rfl, -, hof⟩ := h.exists_node
  unfold keyName
  refine (hof.hasType _).bind fun b hb => ends_ite (fun htrue => ?_) fun _ => ?_
  · rw [hb, beq_iff_eq] at htrue
    subst htrue
    refine hof.requireName.bind fun n hn => ?_
    rintro _ ⟨⟩
    exact hn
  refine (hof.hasType _).bind fun b hb => ends_ite (fun htrue => ?_) fun _ => nofun
  rw [hb, beq_iff_eq] at htrue
  subst htrue
  obtain ⟨value, hv⟩ : ∃ value, Fields.get? "value" fields = some value := by
    rw [isWrittenKey, Json.isOneOf_obj hof.type, Json.isOneOf_obj hof.type] at hkey
    exact Option.isSome_iff_exists.1 hkey
  rw [layer_json_obj, Layer.require_of_get? hv]
  rintro _ ⟨⟩
  exact ⟨_, rfl⟩

/-- The name that the left side of an assignment gives. -/
theorem leftName_text (h : v.SoundOf types) : Succeeds (leftName v) fun o => ∀ n, o = some n → n.IsText := by
  obtain ⟨type, fields, rfl, -, hof⟩ := h.exists_node
  have hsome {m : String} {u : Json} (hu : Succeeds ((layer u).require m) Json.IsText) :
      Succeeds (do return some (← (layer u).require m)) fun o => ∀ n, o = some n → n.IsText := by
    refine hu.bind fun n hn => ?_
    rintro _ ⟨⟩
    exact hn
  unfold leftName
  refine (hof.hasType _).bind fun b hb => ends_ite (fun htrue => ?_) fun _ => ?_
  · rw [hb, beq_iff_eq] at htrue
    subst htrue
    exact hsome hof.requireName
  refine (hof.hasType _).bind fun b hb => ends_ite (fun htrue => ?_) fun _ => nofun
  rw [hb, beq_iff_eq] at htrue
  subst htrue
  refine (hof.flag _).bind fun b hb => ends_ite (fun _ => nofun) fun hcomputed => ?_
  have hconsistent : ((Fields.get? "computed" fields).any Json.truthy ||
      (Fields.get? "property" fields).any (Json.isOneOf ["Identifier"])) = true := hof.consistent
  rw [← hb, eq_false_of_ne_true hcomputed, Bool.false_or] at hconsistent
  obtain ⟨p, hp, hone⟩ := (Option.any_eq_true _ _).1 hconsistent
  obtain ⟨_, pfields, rfl, hmem, hpof⟩ := (hof.sound.field hp).exists_node hone
  cases List.mem_singleton.1 hmem
  rw [layer_json_obj, Layer.require_of_get? hp]
  exact hsome hpof.requireName

/-- A key that is not computed is written out. -/
theorem NodeOf.writtenKey (hof : NodeOf type fields) (hmember : type = "Property" ∨ type = "MethodDefinition")
    (hcomputed : (Fields.get? "computed" fields).any Json.truthy = false) :
    ∃ key, Fields.get? "key" fields = some key ∧ isWrittenKey key = true := by
  have hconsistent := hof.consistent
  refine (Option.any_eq_true _ _).1 ?_
  rcases hmember with rfl | rfl <;> simpa [isConsistent, hcomputed] using hconsistent

/-- The name that the node around a function gives it. -/
theorem nameFromParent_text {classes : List Json} (hclasses : Texts classes) (hof : NodeOf type fields) :
    Succeeds (nameFromParent classes (.obj fields)) fun o => ∀ n, o = some n → n.IsText := by
  unfold nameFromParent
  refine (hof.hasType _).bind fun b hb => ends_ite (fun htrue => ?_) fun _ => ?_
  · rw [hb, beq_iff_eq] at htrue
    subst htrue
    refine (hof.require rfl).bind fun id hid => ?_
    obtain ⟨_, ifields, rfl, -, hidOf⟩ := hid.exists_node
    refine (hidOf.hasType _).bind fun b hb => ends_ite (fun htrue => ?_) fun _ => nofun
    rw [hb, beq_iff_eq] at htrue
    subst htrue
    refine hidOf.requireName.bind fun n hn => ?_
    rintro _ ⟨⟩
    exact hn
  refine (hof.hasType _).bind fun b hb => ends_ite (fun htrue => ?_) fun _ => ?_
  · rw [hb, beq_iff_eq] at htrue
    subst htrue
    exact (hof.require rfl).bind fun left hleft => leftName_text hleft
  refine (hof.hasType _).bind fun inClass _ => ?_
  have hkey : Succeeds (do
      if !(← (layer (Json.obj fields)).hasTypeIn ["Property", "MethodDefinition"]) then return none
      else if ← (layer (Json.obj fields)).flag "computed" then return none
      else keyName (← (layer (Json.obj fields)).require "key")) fun o => ∀ n, o = some n → n.IsText := by
    refine (hof.hasTypeIn _).bind fun b hb => ends_ite (fun _ => nofun) fun hmember => ?_
    refine (hof.flag _).bind fun computed hcomputed => ends_ite (fun _ => nofun) fun hplain => ?_
    have hmember : type = "Property" ∨ type = "MethodDefinition" := by
      rw [hb, Bool.not_eq_true, Bool.not_eq_false'] at hmember
      simpa using hmember
    obtain ⟨key, hv, hwritten⟩ := hof.writtenKey hmember (hcomputed ▸ eq_false_of_ne_true hplain)
    rw [layer_json_obj, Layer.require_of_get? hv]
    rcases hmember with rfl | rfl
    all_goals
      obtain ⟨_, hv', hkey⟩ := hof.node "key" rfl
      cases hv.symm.trans hv'
      exact keyName_text hkey hwritten
  extract_lets constructs
  clear_value constructs
  cases constructs with
  | false => exact hkey
  | true =>
    cases classes with
    | nil => exact hkey
    | cons innermost classes =>
      rintro _ ⟨⟩
      exact hclasses _ List.mem_cons_self

/-- The name under which a function or a class expression is reported. -/
theorem functionName_text {classes : List Json} (hclasses : Texts classes) (hof : NodeOf type fields)
    (hslot : slotAt type "id" = some (.optional ["Identifier"])) {parent : Option Json}
    (hparent : ∀ p, parent = some p → ∃ ptype pfields, p = .obj pfields ∧ NodeOf ptype pfields) :
    Succeeds (functionName classes (.obj fields) parent) Json.IsText := by
  unfold functionName
  refine (hof.readOptional hslot).bind fun o ho => ?_
  split
  · next id hid =>
    obtain ⟨_, ifields, rfl, hmem, hidOf⟩ := (ho id (Option.filter_eq_some_iff.1 hid).1).exists_node
    cases List.mem_singleton.1 hmem
    exact hidOf.requireName
  · cases parent with
    | none => exact ⟨_, rfl⟩
    | some p =>
      obtain ⟨_, pfields, rfl, hpof⟩ := hparent p rfl
      refine (nameFromParent_text hclasses hpof).bind fun o ho => ?_
      cases o with
      | none => exact ⟨_, rfl⟩
      | some n => exact ho n rfl

/-! ## Conditions -/

/-- The part of the program that a node was read from. -/
theorem sourceText_ok (hof : NodeOf type fields) (code : Option String) : Succeeds (Node.sourceText (.obj fields) code) fun _ => True := by
  have hrange := hof.fits_common (show ("range", Slot.range) ∈ common by simp [common])
  unfold Node.sourceText
  extract_lets range
  have hrange' : range = (Fields.get? "range" fields).getD .null := by
    unfold range
    rw [if_pos hof.isNode]
    rfl
  split
  · trivial
  · trivial
  · refine ends_ite (fun _ => trivial) fun htruthy => ?_
    rw [hrange'] at htruthy ⊢
    obtain hv | hv | ⟨a, b, hv⟩ := Json.fits_range hrange <;> rw [hv] at htruthy ⊢
    · exact absurd rfl htruthy
    · exact absurd rfl htruthy
    · trivial

/-- The text by which a condition is shown. -/
theorem Json.SoundOf.conditionText (h : v.SoundOf expressions) (code : Option String) :
    Succeeds (Node.conditionText v code) fun _ => True := by
  obtain ⟨_, fields, rfl, -, hof⟩ := h.exists_node
  unfold Node.conditionText
  refine (sourceText_ok hof code).bind fun text _ => ?_
  cases text with
  | some text => trivial
  | none =>
    refine (h.1.printExpression h.2).bind fun text htext => ?_
    obtain ⟨s, rfl⟩ := htext
    trivial

/-! ## Readers of the rules -/

theorem isConsole_ok (h : v.SoundOf expressions) : Succeeds (Visit.isConsole v) fun _ => True := by
  obtain ⟨type, fields, rfl, -, hof⟩ := h.exists_node
  unfold Visit.isConsole
  refine (hof.hasType _).bind fun b hb => (hof.flag _).bind fun _ _ => ends_ite (fun _ => trivial) fun hmember => ?_
  obtain rfl : type = "MemberExpression" := by
    rw [Bool.or_eq_true, not_or, Bool.not_eq_true, Bool.not_eq_false', hb, beq_iff_eq] at hmember
    exact hmember.1
  refine (hof.require rfl).bind fun object hobject => ?_
  obtain ⟨otype, ofields, rfl, -, hoof⟩ := hobject.exists_node
  have hplain (fields : Fields Json) (key : String) : Succeeds ((layer (Json.obj fields)).optional key) fun o =>
      o = (Fields.get? key fields).filter fun v => !(layer v).isNull := rfl
  refine (hplain ofields "type").bind fun t ht => ends_ite (fun _ => trivial) fun hident => ?_
  obtain rfl : otype = "Identifier" := by
    rw [ht, Fields.get?_of_type? hoof.type] at hident
    simpa [Option.filter_some, Layer.isNull, Json.string?] using hident
  refine hoof.requireName.bind fun _ _ => ends_ite (fun _ => trivial) fun _ => (hof.require rfl).bind fun property hproperty => ?_
  obtain ⟨_, pfields, rfl, -, -⟩ := hproperty.exists_node
  exact (hplain pfields "name").bind fun _ _ => trivial

/-- The names that a declaration declares. -/
theorem declaredNames_text (hof : NodeOf "VariableDeclaration" fields) : Succeeds (Visit.declaredNames (.obj fields)) Texts := by
  obtain ⟨items, hv, hitems⟩ := hof.list "declarations" rfl
  unfold Visit.declaredNames
  rw [layer_json_obj, Layer.require_of_get? hv]
  refine (ends_mapM (P := Texts) fun d hd => ?_).bind fun names hnames n hn => ?_
  · obtain ⟨_, dfields, rfl, hmem, hdof⟩ := (show d.SoundOf _ from hitems d hd).exists_node
    cases List.mem_singleton.1 hmem
    exact (hdof.require rfl).bind fun id hid => hid.1.bindingNames
  · obtain ⟨ns, hns, hn⟩ := List.mem_flatten.1 hn
    exact hnames ns hns n hn

/-- The records of the variables that a loop sets for an iteration. -/
theorem iterationProbes_sound {line left : Json} (hline : line.isAtom = true) (hleft : left.Sound) :
    Succeeds (Visit.iterationProbes line left) fun probes => ∀ p ∈ probes, p.SoundOf ["ExpressionStatement"] := by
  unfold Visit.iterationProbes
  refine ends_ite (fun _ => List.forall_mem_nil _) fun hnode => ?_
  cases left with
  | obj fields =>
    obtain ⟨type, htype⟩ := hleft.proper.exists_type (by simpa using hnode)
    have hof : NodeOf type fields := ⟨hleft, htype⟩
    refine (hof.hasType _).bind fun b hb => ends_ite (fun htrue => ?_) fun _ => ?_
    · rw [hb, beq_iff_eq] at htrue
      subst htrue
      refine (declaredNames_text hof).bind fun names hnames p hp => ?_
      obtain ⟨n, hn, rfl⟩ := List.mem_map.1 hp
      exact localsStatement_sound hline (List.forall_mem_singleton.2 (Target.named_sound (hnames n hn)))
    · refine hleft.targetsOf.bind fun targets htargets => ?_
      cases targets with
      | nil => exact List.forall_mem_nil _
      | cons t ts => exact List.forall_mem_singleton.2 (localsStatement_sound hline htargets)
  | _ => exact absurd rfl hnode

end Nodes

end ScriptTrace
