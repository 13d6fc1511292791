import ScriptTrace.Proofs.Progress

/-!
# Steps of a rule

The states of a pass while the rule for a node is at work, and what the steps that rules are made of do.

* `Underway` : a state in the middle of a node, some fields of which have been dealt with;
* `Underway.visitNode`, `Underway.visitOptional`, `Underway.visitStatements` : fields that are visited;
* `Underway.visitHeader`, `Underway.asBlock`, `Underway.visitBlock` : headers and bodies;
* `Underway.setField` : a field that is framed;
* `Underway.finish` : a node at the end of its rule.
-/

namespace ScriptTrace

open Rewriting Step

/-! ## Nodes in the middle of a pass -/

/-- A pass without shared parts that begins with a proper node of a type. -/
structure Site (s : Pass) (type : String) (fields : Fields Json) : Prop where
  parts : s.parts = []
  type : Fields.type? fields = some type
  proper : (Json.obj fields).Proper
  focus : ∃ seen, s.focus = .obj seen (Fields.mapValues .ofJson fields)

/-- The states of a pass in the middle of a node: the records of the fields visited so far are queued. -/
def Underway (s₀ : Pass) (up : Option Json) (type : String) (name : Json) (fields : Fields Json)
    (ready done framed : List String) (records : List Json) (s : Pass) : Prop :=
  ∃ seen made fs c, s = { s₀ with focus := .obj seen fs, queue := s₀.queue.push [] records, counter := c } ∧
    Progress s₀.code s₀.classes up type name fields made fs ready done framed

/-- The records of a field. -/
def writesIn (key : String) (fields : Fields Json) : List Json := ((Fields.get? key fields).map Json.writes).getD []

section Writes

variable {type key : String} {fields : Fields Json} {keys : List String}

theorem writesIn_eq {v : Json} (hv : Fields.get? key fields = some v) : writesIn key fields = v.writes := by
  rw [writesIn, hv]; rfl

theorem writesIn_eq_nil (hv : Fields.get? key fields = none ∨ Fields.get? key fields = some .null) :
    writesIn key fields = [] := by
  rcases hv with hv | hv <;> rw [writesIn, hv] <;> rfl

/-- The records of a node, field by field. -/
theorem writes_obj (htype : Fields.type? fields = some type) :
    (Json.obj fields).writes = (sameStatement type fields).flatMap (writesIn · fields) ++ ownWrites fields := by
  simp only [Json.writes, writesOf, htype, Json.writesFields_eq_mapValues, Fields.get?_mapValues]
  rfl

theorem ownWrites_eq_nil (htype : Fields.type? fields = some type)
    (h : type ∉ ["AssignmentExpression", "UpdateExpression", "VariableDeclarator"]) : ownWrites fields = [] := by
  simp only [List.mem_cons, List.not_mem_nil, or_false, not_or] at h
  simp [ownWrites, htype, h]

end Writes

/-! ## Steps of a rule -/

section Rule

variable {s₀ s : Pass} {up : Option Json} {type key : String} {name : Json} {fields : Fields Json}
  {ready done framed : List String} {records : List Json} {visit : Visitor}

/-- The state of a pass at the beginning of a node. -/
theorem Underway.start (type : String) (hsite : Site s type fields)
    (hcompleted : completed type fields = fields) (up : Option Json) (name : Json) :
    Underway s up type name fields [] [] [] [] s := by
  have hp := Progress.start s.code s.classes up type name fields
  rw [hcompleted] at hp
  obtain ⟨seen, hfocus⟩ := hsite.focus
  exact ⟨seen, fields, _, s.counter, by rw [Queue.push_nil, ← hfocus], hp⟩

/-- A step on a field that makes of it what is told by `Rewrites`. -/
theorem Underway.inField {α : Type} {a : Step α} (key : String) (after : List Json)
    (h : Underway s₀ up type name fields ready done framed records s) (hproper : (Json.obj fields).Proper)
    (hdone : key ∉ done) (hframed : framed = [] ∨ key ≠ "test" ∧ ∀ k ∈ framed, k ≠ key)
    (hready : key ∉ ready → ∀ v, readyField type key v = v)
    (hact : ∀ v, Fields.get? key (prepared type fields) = some v → ∀ queue counter,
      Places (mode type fields key) a (classesAt s₀.classes type key name) (some (.obj fields)) v [] after
        { s₀ with focus := .ofJson v, queue := queue, counter := counter }) :
    Ensures (inField key a) s fun _ s' =>
      Underway s₀ up type name fields ready (key :: done) framed (records ++ after) s' := by
  obtain ⟨seen, made, fs, c, rfl, hp⟩ := h
  refine ensures_inField rfl fun t ht => ?_
  have hfresh := hp.fresh key hdone
  rw [ht] at hfresh
  obtain ⟨v, hv, rfl⟩ := Option.map_eq_some_iff.1 hfresh.symm
  have hprepared := hp.get?_prepared_of_made hdone hv fun hk => hready hk v
  refine ⟨Tree.isShared_ofJson v, (hact v hprepared _ _).mono fun _ s' ⟨t, c', hs, hrw⟩ => ?_⟩
  have hnd : (Fields.names fs).Nodup := hp.names_tree ▸ nodup_completed hproper.nodup
  subst hs
  refine ⟨seen, _, _, c', ?_, hp.visit _ hdone hframed hv (fun hk => hready hk v) hrw⟩
  simp only [Fields.set_eq_adjust t hnd (Fields.mem_names_of_get? ht), Queue.push_push, List.append_nil]

/-! ## What the focus tells in the middle of a node -/

/-- A plain value in a field that is not framed stays where it is. -/
theorem Progress.get?_inert {code : Option String} {classes : List Json} {made : Fields Json} {fs : Fields Tree}
    (h : Progress code classes up type name fields made fs ready done framed) (hframed : key ∉ framed) {v : Json}
    (hv : Fields.get? key fields = some v) (hinert : v.isInert = true) (hkey : key ∉ ["expression", "consequent", "alternate", "body"]) :
    (Fields.get? key fs).map Tree.bare = some v := by
  have hready (v : Json) : readyField type key v = v := readyField_eq_self (by simp_all) v
  have hcompleted : Fields.get? key (completed type fields) = some v := get?_completed (by simp_all) hv
  have hprepared : Fields.get? key (prepared type fields) = some v := by rw [get?_prepared_eq, hcompleted, Option.map_some, hready]
  rw [h.bare hframed]
  by_cases hdone : key ∈ done
  · obtain ⟨w, hw⟩ := Fields.exists_get?_of_names h.names_made hcompleted
    rw [hw, (h.visited key hdone v w hprepared hw).inert hinert]
  · rw [h.waiting key hdone]
    split
    · exact hprepared
    · exact hcompleted

theorem Underway.get?_inert (h : Underway s₀ up type name fields ready done framed records s) (hframed : key ∉ framed)
    {v : Json} (hv : Fields.get? key fields = some v) (hinert : v.isInert = true)
    (hkey : key ∉ ["expression", "consequent", "alternate", "body"]) : s.focus.bare.get? key = some v := by
  obtain ⟨seen, made, fs, c, rfl, hp⟩ := h
  rw [Tree.bare_obj]
  exact (Fields.get?_mapValues ..).trans (hp.get?_inert hframed hv hinert hkey)

theorem nameFromParent_other {classes : List Json} {fields : Fields Json} {type : String}
    (htype : Fields.type? fields = some type)
    (h : type ∉ ["VariableDeclarator", "AssignmentExpression", "Property", "MethodDefinition"]) :
    nameFromParent classes (.obj fields) = .ok none := by
  simp only [List.mem_cons, List.not_mem_nil, or_false, not_or] at h
  rw [nameFromParent, Json.hasType_json htype, Json.hasType_json htype, Json.hasType_json htype,
    Json.hasTypeIn_json htype]
  simp [h]

theorem SameParent.of_nameFromParent {t : Tree} {j : Json}
    (h : ∀ classes, nameFromParent classes t.bare = nameFromParent classes j) : SameParent (some t) (some j) := by
  intro classes node
  simp only [functionName, Option.map_some, h]

/-- Only few nodes give a name to functions in them. -/
theorem Underway.sameParent (hsite : Site s₀ type fields) (h : Underway s₀ up type name fields ready done framed records s)
    (htype : type ∉ ["VariableDeclarator", "AssignmentExpression", "Property", "MethodDefinition"])
    (hframed : "type" ∉ framed) : SameParent (some s.focus) (some (.obj fields)) := by
  have hget := h.get?_inert hframed (Fields.get?_of_type? hsite.type) rfl (by decide)
  obtain ⟨seen, made, fs, c, rfl, hp⟩ := h
  refine .of_nameFromParent fun classes => ?_
  rw [Tree.bare_obj] at hget ⊢
  rw [nameFromParent_other hsite.type htype, nameFromParent_other (Fields.type?_of_get? hget) htype]

/-! ## Visiting fields -/

/-- Types of nodes that do not stand in any place for statements or expressions. -/
def boundTypes : List String := "ClassDeclaration" :: partTypes

section Bound

variable {v : Json} (h : v.isOneOf boundTypes = false)

include h

theorem not_class_of_not_bound : v.type? ≠ some "ClassDeclaration" := by
  intro he
  rw [Json.isOneOf, he] at h
  cases h

theorem not_part_of_not_bound : v.isOneOf partTypes = false := by
  cases ht : v.type? with
  | none => rw [Json.isOneOf, ht]; rfl
  | some t =>
    rw [Json.isOneOf, ht, Option.any_some] at h ⊢
    simp only [boundTypes, List.contains_cons, Bool.or_eq_false_iff] at h
    exact h.2

end Bound

theorem not_bound_of_isOneOf {v : Json} {types bound : List String} (h : v.isOneOf types = true)
    (hbound : ∀ t ∈ bound, t ∉ types) : v.isOneOf bound = false := by
  obtain ⟨fields, type, rfl, htype, hmem⟩ := Json.isOneOf_iff.1 h
  rw [Json.isOneOf_obj htype]
  simpa using fun ht => hbound type ht hmem

theorem not_bound_of_not_node {v : Json} {bound : List String} (h : v.isNode = false) : v.isOneOf bound = false := by
  rw [Json.isOneOf, type?_eq_none h]; rfl

/-- A node, or nothing, is visited in a field. -/
theorem Underway.visitField (hvisit : visit.Sound) (hsite : Site s₀ type fields)
    (h : Underway s₀ up type name fields ready done framed records s) (hdone : key ∉ done)
    (hframed : framed = [] ∨ key ≠ "test" ∧ ∀ k ∈ framed, k ≠ key) (hready : key ∉ ready → ∀ v, readyField type key v = v)
    (hmode : mode type fields key = .visited) (hclasses : ¬ (type ∈ classTypes ∧ key = "body"))
    (hparent : SameParent (some s.focus) (some (.obj fields))) {v : Json}
    (hv : Fields.get? key (prepared type fields) = some v) (hproper : v.Proper) (hlist : ∀ items, v ≠ .arr items)
    (hbound : v.isOneOf boundTypes = false) :
    Ensures (Visit.field visit key) s fun _ s' =>
      Underway s₀ up type name fields ready (key :: done) framed (records ++ v.writes) s' := by
  unfold Visit.field
  rw [ensures_bind, ensures_focus]
  refine h.inField _ _ hsite.proper hdone hframed hready fun w hw queue counter => ?_
  rw [hv] at hw
  cases hw
  have hplaces := hvisit.places (s := { s₀ with focus := .ofJson v, queue := queue, counter := counter })
    hsite.parts rfl hlist hproper (not_part_of_not_bound hbound) hparent
  rw [declares_eq_nil (not_class_of_not_bound hbound)] at hplaces
  rwa [hmode, classesAt, if_neg hclasses]

section Slots

variable {slots : List (String × Slot)} {types : List String}

/-- A field that holds a node. -/
theorem Underway.visitNode (key : String) (hvisit : visit.Sound) (hsite : Site s₀ type fields)
    (h : Underway s₀ up type name fields ready done framed records s) (hshape : Grammar.shape type = some slots)
    (hslot : Fields.get? key slots = some (.node types)) (hbound : ∀ t ∈ boundTypes, t ∉ types) (hdone : key ∉ done)
    (hframed : framed = [] ∨ key ≠ "test" ∧ ∀ k ∈ framed, k ≠ key) (hready : ∀ v, readyField type key v = v)
    (hcompleted : completed type fields = fields) (hmode : mode type fields key = .visited)
    (hclasses : ¬ (type ∈ classTypes ∧ key = "body")) (hparent : SameParent (some s.focus) (some (.obj fields))) :
    Ensures (Visit.field visit key) s fun _ s' =>
      Underway s₀ up type name fields ready (key :: done) framed (records ++ writesIn key fields) s' := by
  obtain ⟨vfields, vtype, hv, hvtype, hmem⟩ := Json.fits_node (hsite.proper.fits _ hsite.type hshape hslot)
  rw [writesIn_eq hv]
  have hprepared : Fields.get? key (prepared type fields) = some (.obj vfields) := by
    rw [get?_prepared_eq, hcompleted, hv, Option.map_some, hready]
  refine h.visitField hvisit hsite hdone hframed (fun _ => hready) hmode hclasses hparent hprepared
    (hsite.proper.field hv) (fun items => by simp) ?_
  exact not_bound_of_isOneOf (Json.isOneOf_iff.2 ⟨vfields, vtype, rfl, hvtype, hmem⟩) hbound

/-- A field that has not been worked on is looked up. -/
theorem Underway.child? (h : Underway s₀ up type name fields ready done framed records s) (hdone : key ∉ done)
    (hready : key ∉ ready) (hcompleted : completed type fields = fields) {R : Option Tree → Pass → Prop}
    (hnone : Fields.get? key fields = none ∨ Fields.get? key fields = some .null → R none s)
    (hsome : ∀ v, Fields.get? key fields = some v → v ≠ .null → R (some (.ofJson v)) s) :
    Ensures (child? key) s R := by
  obtain ⟨seen, made, fs, c, rfl, hp⟩ := h
  have hget : Fields.get? key fs = (Fields.get? key fields).map Tree.ofJson := by
    rw [hp.fresh key hdone, hp.waiting key hdone, if_neg hready, hcompleted]
  cases hv : Fields.get? key fields with
  | none =>
    rw [hv] at hget
    exact ensures_child?_none rfl (.inl hget) (hnone (.inl hv))
  | some v =>
    rw [hv, Option.map_some] at hget
    by_cases hnull : v = .null
    · subst hnull
      exact ensures_child?_none rfl (.inr hget) (hnone (.inr hv))
    · refine ensures_child?_some rfl hget (fun e => hnull ?_) (Tree.isShared_ofJson v) (hsome v hv hnull)
      rw [← Tree.bare_ofJson v, e]; rfl

/-- A field with nothing to visit. -/
theorem Underway.skip (key : String) (h : Underway s₀ up type name fields ready done framed records s) (hdone : key ∉ done)
    (hkey : key ∉ ready) (hcompleted : completed type fields = fields) (hmode : mode type fields key = .visited)
    (hinert : ∀ v, Fields.get? key fields = some v → v.isInert = true ∧ readyField type key v = v) :
    Underway s₀ up type name fields ready (key :: done) framed records s := by
  obtain ⟨seen, made, fs, c, rfl, hp⟩ := h
  refine ⟨seen, made, fs, c, rfl, hp.skip _ hdone (fun v hv => hinert v ?_) hmode⟩
  rw [← hv, hp.waiting key hdone, if_neg hkey, hcompleted]

theorem inert_of_nothing (hv : Fields.get? key fields = none ∨ Fields.get? key fields = some .null)
    (hready : readyField type key .null = .null) (v : Json) (hget : Fields.get? key fields = some v) :
    v.isInert = true ∧ readyField type key v = v := by
  rcases hv with hv | hv <;> rw [hv] at hget <;> cases hget
  exact ⟨rfl, hready⟩

/-- A field that holds a node or nothing. -/
theorem Underway.visitOptional (key : String) (hvisit : visit.Sound) (hsite : Site s₀ type fields)
    (h : Underway s₀ up type name fields ready done framed records s) (hshape : Grammar.shape type = some slots)
    (hslot : Fields.get? key slots = some (.optional types)) (hbound : ∀ t ∈ boundTypes, t ∉ types) (hdone : key ∉ done)
    (hkey : key ∉ ready) (hframed : framed = [] ∨ key ≠ "test" ∧ ∀ k ∈ framed, k ≠ key)
    (hready : ∀ v, readyField type key v = v) (hcompleted : completed type fields = fields)
    (hmode : mode type fields key = .visited) (hclasses : ¬ (type ∈ classTypes ∧ key = "body"))
    (hparent : SameParent (some s.focus) (some (.obj fields))) :
    Ensures (Step.child? key) s fun t s' =>
      Ensures (if t.isSome then Visit.field visit key else pure ()) s' fun _ s'' =>
        Underway s₀ up type name fields ready (key :: done) framed (records ++ writesIn key fields) s'' := by
  refine h.child? hdone hkey hcompleted (fun hv => ?_) (fun v hv hnull => ?_)
  · rw [writesIn_eq_nil hv, List.append_nil]
    exact ensures_pure.2 (h.skip _ hdone hkey hcompleted hmode (inert_of_nothing hv (hready _)))
  · rw [Option.isSome_some, if_pos rfl, writesIn_eq hv]
    have hprepared : Fields.get? key (prepared type fields) = some v := by
      rw [get?_prepared_eq, hcompleted, hv, Option.map_some, hready]
    have hfits := hsite.proper.fits _ hsite.type hshape hslot
    rw [hv] at hfits
    rcases Json.fits_optional hfits with he | he | ⟨vfields, vtype, he, hvtype, hmem⟩
    · cases he
    · exact absurd (Option.some.inj he) hnull
    · cases he
      refine h.visitField hvisit hsite hdone hframed (fun _ => hready) hmode hclasses hparent hprepared
        (hsite.proper.field hv) (fun items => by simp) ?_
      exact not_bound_of_isOneOf (Json.isOneOf_iff.2 ⟨vfields, vtype, rfl, hvtype, hmem⟩) hbound

/-- What holds of a list of nodes none of which declares a class. -/
theorem flatMap_declares {items : List Json} (hitems : ∀ x ∈ items, x.type? ≠ some "ClassDeclaration") :
    (items.flatMap fun v => if v.isNode then v.declares else []) = [] := by
  rw [List.flatMap_eq_nil_iff]
  intro v hv
  split
  · exact declares_eq_nil (hitems v hv)
  · rfl

/-- A list of statements. -/
theorem Underway.visitStatements (key : String) (hvisit : visit.Sound) (hsite : Site s₀ type fields)
    (h : Underway s₀ up type name fields ready done framed records s) (hshape : Grammar.shape type = some slots)
    (hslot : Fields.get? key slots = some (.list types)) (hpart : ∀ t ∈ partTypes, t ∉ types) (hdone : key ∉ done)
    (hframed : framed = [] ∨ key ≠ "test" ∧ ∀ k ∈ framed, k ≠ key) (hready : ∀ v, readyField type key v = v)
    (hcompleted : completed type fields = fields) (hmode : mode type fields key = .statements) (hclasses : type ∉ classTypes) :
    Ensures (Step.inField key (Visit.statementList visit)) s fun _ s' =>
      Underway s₀ up type name fields ready (key :: done) framed records s' := by
  obtain ⟨items, hitems, hall⟩ := Json.fits_list (hsite.proper.fits _ hsite.type hshape hslot)
  have hstep := h.inField (a := Visit.statementList visit) key [] hsite.proper hdone hframed (fun _ => hready) ?_
  · rwa [List.append_nil] at hstep
  · intro v hv queue counter
    rw [get?_prepared_eq, hcompleted, hitems, Option.map_some, hready] at hv
    cases hv
    rw [hmode, classesAt, if_neg fun hc => hclasses hc.1]
    exact places_statementList (s := { s₀ with focus := .ofJson (.arr items), queue := queue, counter := counter })
      hvisit _ hsite.parts (Tree.ofJson_arr items) (fun v hv => (hsite.proper.field hitems).item hv) fun v hv => by
        obtain ⟨vfields, vtype, rfl, hvtype, hmem⟩ := Json.isOneOf_iff.1 (hall v hv)
        rw [Json.isOneOf_obj hvtype]
        simpa using fun ht => hpart vtype ht hmem

end Slots

/-! ## Headers and bodies -/

/-- A field of a header is visited without queuing records. -/
theorem Underway.visitHeader (key : String) (hvisit : visit.Sound) (hsite : Site s₀ type fields)
    (h : Underway s₀ up type name fields ready done framed records s) (hdone : key ∉ done) (hkey : key ∉ ready)
    (hframed : framed = [] ∨ key ≠ "test" ∧ ∀ k ∈ framed, k ≠ key) (hready : ∀ v, readyField type key v = v)
    (hcompleted : completed type fields = fields) (hmode : mode type fields key = .visited) (hclasses : type ∉ classTypes)
    (hparent : SameParent (some s.focus) (some (.obj fields)))
    (hheader : ∀ v, Fields.get? key fields = some v →
      v.isInert = true ∨ v.isNode = true ∧ v.isOneOf boundTypes = false) :
    Ensures (Visit.headerField visit key) s fun _ s' =>
      Underway s₀ up type name fields ready (key :: done) framed records s' := by
  unfold Visit.headerField
  rw [ensures_bind]
  -- nothing to visit
  have hskip := h.skip _ hdone hkey hcompleted hmode
  refine h.child? hdone hkey hcompleted (fun hv => ?_) (fun v hv hnull => ?_)
  · exact ensures_pure.2 (hskip (inert_of_nothing hv (hready _)))
  · simp only [Tree.isNode_ofJson]
    rw [ensures_if]
    refine ⟨fun hn => ?_, fun hn => ensures_pure.2 (hskip fun w hw => ?_)⟩
    · have hprepared : Fields.get? key (prepared type fields) = some v := by
        rw [get?_prepared_eq, hcompleted, hv, Option.map_some, hready]
      have hlist : ∀ items, v ≠ .arr items := by
        rintro items rfl
        cases hn
      have hbound : v.isOneOf boundTypes = false := by
        rcases hheader v hv with hi | hc
        · exact not_bound_of_not_node ((isInert_iff hlist).1 hi)
        · exact hc.2
      -- the header has a queue of its own
      have hquiet : Underway { s₀ with queue := .empty false } up type name fields ready done framed []
          { s with queue := .empty false } := by
        obtain ⟨seen, made, fs, c, rfl, hp⟩ := h
        exact ⟨seen, made, fs, c, by rw [Queue.push_nil], hp⟩
      have hsite' : Site { s₀ with queue := .empty false } type fields := ⟨hsite.parts, hsite.type, hsite.proper, hsite.focus⟩
      rw [ensures_quietly]
      refine (hquiet.visitField hvisit hsite' hdone hframed (fun _ => hready) hmode
        (fun hc => hclasses hc.1) hparent hprepared (hsite.proper.field hv) hlist hbound).mono ?_
      rintro _ s' ⟨seen, made, fs, c, rfl, hp⟩
      obtain ⟨seen₀, made₀, fs₀, c₀, rfl, hp₀⟩ := h
      exact ⟨seen, made, fs, c, rfl, hp⟩
    · rw [hv] at hw
      cases hw
      exact ⟨(hheader _ hv).resolve_right fun hc => hn hc.1, hready _⟩

theorem asBlock_of_block {fields : Fields Json} (h : Fields.type? fields = some "BlockStatement") :
    Rewriting.asBlock (.obj fields) = .obj fields := by
  have ht : (Json.obj fields).type? = some "BlockStatement" := h
  simp [Rewriting.asBlock, ht]

theorem asBlock_of_other {fields : Fields Json} {type : String} (h : Fields.type? fields = some type)
    (hblock : type ≠ "BlockStatement") : Rewriting.asBlock (.obj fields) = blockOf [.obj fields] := by
  have ht : (Json.obj fields).type? = some type := h
  simp [Rewriting.asBlock, ht, hblock, Json.isNode_of_type? ht]

theorem exists_asBlock {fields : Fields Json} {type : String} (h : Fields.type? fields = some type) :
    ∃ block, Rewriting.asBlock (.obj fields) = .obj block ∧ Fields.type? block = some "BlockStatement" := by
  by_cases hblock : type = "BlockStatement"
  · exact ⟨fields, asBlock_of_block (hblock ▸ h), hblock ▸ h⟩
  · exact ⟨_, asBlock_of_other h hblock, rfl⟩

/-- A branch or body is made a block. -/
theorem Underway.asBlock (key : String) (hsite : Site s₀ type fields) (h : Underway s₀ up type name fields ready done framed records s)
    (hdone : key ∉ done) (hkey : key ∉ ready) (hframed : framed = [] ∨ key ≠ "test" ∧ ∀ k ∈ framed, k ≠ key)
    (hready : ∀ v, readyField type key v = Rewriting.asBlock v) (hcompleted : completed type fields = fields)
    {vfields : Fields Json} {vtype : String} (hv : Fields.get? key fields = some (.obj vfields))
    (hvtype : Fields.type? vfields = some vtype) :
    Ensures (Visit.asBlock key) s fun _ s' =>
      Underway s₀ up type name fields (key :: ready) done framed records s' := by
  unfold Visit.asBlock
  rw [ensures_bind]
  refine h.child? hdone hkey hcompleted (fun hn => ?_) (fun v hv' hnull => ?_)
  · rcases hn with hn | hn <;> rw [hn] at hv <;> cases hv
  · rw [hv] at hv'
    cases hv'
    have hbody : (layer (Tree.ofJson (.obj vfields))).hasType "BlockStatement" = .ok (vtype == "BlockStatement") := by
      rw [Tree.ofJson_obj, layer_obj]
      refine hasType_obj (x := .str vtype) ?_ rfl _
      rw [Fields.get?_mapValues, Fields.get?_of_type? hvtype]; rfl
    have hnode : (Tree.ofJson (.obj vfields)).isNode = true := by
      rw [Tree.isNode_ofJson]
      exact Json.isNode_of_type? (j := .obj vfields) hvtype
    obtain ⟨seen, made, fs, c, rfl, hp⟩ := h
    have hmade : Fields.get? key made = some (.obj vfields) := by
      rw [hp.waiting key hdone, if_neg hkey, hcompleted, hv]
    have hprepare := hp.prepare _ hdone hkey hmade hframed
    have hfs : Fields.get? key fs = some (.ofJson (.obj vfields)) := by rw [hp.fresh key hdone, hmade]; rfl
    have hnd : (Fields.names fs).Nodup := hp.names_tree ▸ nodup_completed hsite.proper.nodup
    simp only [hnode, if_true, ensures_bind, ensures_lift, hbody]
    rintro _ ⟨⟩
    by_cases hblock : vtype = "BlockStatement"
    · subst hblock
      rw [hready, asBlock_of_block hvtype, Fields.adjust_eq_self (hp.names_made ▸ nodup_completed hsite.proper.nodup)
        (fun w hw => by rw [hmade] at hw; exact (Option.some.inj hw).symm),
        Fields.adjust_eq_self hnd (fun w hw => by rw [hfs] at hw; exact (Option.some.inj hw).symm)] at hprepare
      simp only [beq_self_eq_true, if_true, ensures_discard, ensures_place]
      exact fun _ _ => ⟨seen, made, fs, c, rfl, hprepare⟩
    · rw [hready, asBlock_of_other hvtype hblock] at hprepare
      simp only [beq_false_of_ne hblock, Bool.false_eq_true, if_false, ensures_bind, ensures_place, ensures_setField,
        ensures_discard]
      intro t ht _ _
      have ht : t = .ofJson (.obj vfields) := by
        rw [layer_obj, Layer.require_obj, hfs] at ht
        exact (Option.some.inj ht).symm
      refine ⟨seen, _, _, c, ?_, hprepare⟩
      rw [Tree.setField_obj, Fields.set_eq_adjust _ hnd (Fields.mem_names_of_get? hfs), ht]
      simp [Probe.block, blockOf, Tree.ofJson, Tree.ofJsonWith, Tree.ofFields, Tree.ofItems]

/-! ## Blocks -/

theorem blockOf_proper {ss : List Json} (h : ∀ s ∈ ss, s.Proper ∧ s.isOneOf Grammar.listed = true) :
    (blockOf ss).Proper := by
  have hlist : (Slot.list Grammar.listed).fits (some (.arr ss)) = true := List.all_eq_true.2 fun s hs => (h s hs).2
  refine Json.everyObject_obj.2 ⟨?_, ?_⟩
  · have hfits : Grammar.isNodeOf "BlockStatement" [("type", .str "BlockStatement"), ("body", .arr ss)] = true := by
      have hshape : Grammar.shape "BlockStatement" = some [("body", .list Grammar.listed)] := rfl
      simp only [Grammar.isNodeOf, hshape, Bool.and_eq_true]
      refine ⟨⟨?_, ?_⟩, rfl⟩
      · rw [List.all_eq_true]
        intro slot hslot
        simp only [Grammar.common, List.cons_append, List.nil_append, List.mem_cons, List.not_mem_nil, or_false] at hslot
        rcases hslot with rfl | rfl | rfl | rfl
        · exact hlist
        all_goals rfl
      · have hbody : Grammar.slotOf ([("body", Slot.list Grammar.listed)] ++ Grammar.common) "body" =
            some (.list Grammar.listed) := rfl
        have htype : Grammar.slotOf ([("body", Slot.list Grammar.listed)] ++ Grammar.common) "type" = some .text := rfl
        simp only [List.all_cons, List.all_nil, hbody, htype, Option.any_some, hlist, Bool.and_true]
        rfl
    exact Bool.and_eq_true_iff.2 ⟨rfl, hfits⟩
  · intro f hf
    simp only [List.mem_cons, List.not_mem_nil, or_false] at hf
    rcases hf with rfl | rfl
    · rfl
    · exact Json.everyObject_arr.2 fun s hs => (h s hs).1

theorem type?_blockOf (ss : List Json) : (blockOf ss).type? = some "BlockStatement" := rfl

/-- A block has no records of its own: those of its statements stand inside. -/
theorem writes_block {v : Json} (h : v.type? = some "BlockStatement") : v.writes = [] := by
  cases v with
  | obj fields =>
    have hown : ownWrites fields = [] := ownWrites_eq_nil h (by decide)
    rw [writes_obj h, hown]
    simp [sameStatement, visitedFields, ofGroup, visitTable, isApart, apartTable]
  | _ => cases h

theorem asBlock_proper {v : Json} (h : v.Proper) (hv : v.isOneOf Grammar.statements = true) :
    (Rewriting.asBlock v).Proper ∧ (Rewriting.asBlock v).type? = some "BlockStatement" := by
  obtain ⟨fields, type, rfl, htype, hmem⟩ := Json.isOneOf_iff.1 hv
  by_cases hblock : type = "BlockStatement"
  · subst hblock
    rw [asBlock_of_block htype]
    exact ⟨h, htype⟩
  · rw [asBlock_of_other htype hblock]
    refine ⟨blockOf_proper fun s hs => ?_, rfl⟩
    obtain rfl := List.mem_singleton.1 hs
    refine ⟨h, Json.isOneOf_iff.2 ⟨fields, type, rfl, htype, ?_⟩⟩
    exact List.mem_cons_of_mem _ hmem

/-- A branch or body that was made a block is looked up. -/
theorem Underway.child?_ready (h : Underway s₀ up type name fields ready done framed records s) (hdone : key ∉ done)
    (hkey : key ∈ ready) {v : Json} (hv : Fields.get? key (prepared type fields) = some v)
    (hblock : v.type? = some "BlockStatement") {R : Option Tree → Pass → Prop} (hR : ∀ t, R (some t) s) :
    Ensures (Step.child? key) s R := by
  obtain ⟨seen, made, fs, c, rfl, hp⟩ := h
  have hget : Fields.get? key fs = some (.ofJson v) := by
    rw [hp.fresh key hdone, hp.waiting key hdone, if_pos hkey, hv]; rfl
  refine ensures_child?_some rfl hget (fun e => ?_) (Tree.isShared_ofJson v) (hR _)
  have hbare := congrArg Tree.bare e
  rw [Tree.bare_ofJson] at hbare
  rw [hbare] at hblock
  cases hblock

/-- A branch or body that was made a block is visited. -/
theorem Underway.visitBlock (hvisit : visit.Sound) (hsite : Site s₀ type fields)
    (h : Underway s₀ up type name fields ready done framed records s) (hdone : key ∉ done) (hkey : key ∈ ready)
    (hframed : framed = [] ∨ key ≠ "test" ∧ ∀ k ∈ framed, k ≠ key)
    (hready : ∀ v, readyField type key v = Rewriting.asBlock v) (hcompleted : completed type fields = fields)
    (hmode : mode type fields key = .visited) (hclasses : type ∉ classTypes)
    (hparent : SameParent (some s.focus) (some (.obj fields))) {v : Json} (hv : Fields.get? key fields = some v)
    (hstatement : v.isOneOf Grammar.statements = true) :
    Ensures (Visit.field visit key) s fun _ s' =>
      Underway s₀ up type name fields ready (key :: done) framed records s' := by
  have hprepared : Fields.get? key (prepared type fields) = some (Rewriting.asBlock v) := by
    rw [get?_prepared_eq, hcompleted, hv, Option.map_some, hready]
  obtain ⟨hproper, hblock⟩ := asBlock_proper (hsite.proper.field hv) hstatement
  have hstep := h.visitField hvisit hsite hdone hframed (fun hk => absurd hkey hk) hmode (fun hc => hclasses hc.1) hparent
    hprepared hproper (fun items he => by rw [he] at hblock; cases hblock) (by rw [Json.isOneOf, hblock]; rfl)
  rwa [writes_block hblock, List.append_nil] at hstep

/-! ## Lines -/

theorem get?_completed_of_ne (h : key ∉ ["argument", "expression"]) :
    Fields.get? key (completed type fields) = Fields.get? key fields := by
  simp only [List.mem_cons, List.not_mem_nil, or_false, not_or] at h
  unfold completed
  split
  · rw [Fields.get?_append]
    cases Fields.get? key fields with
    | some v => rfl
    | none => simp [Fields.get?, Ne.symm h.1]
  · split
    · rw [Fields.get?_set, if_neg (Ne.symm h.2)]
    · rfl

/-- A value that is neither prepared nor visited stays where it is. -/
theorem Progress.get?_kept {code : Option String} {classes : List Json} {name : Json} {made : Fields Json} {fs : Fields Tree}
    {ready done framed : List String} (h : Progress code classes up type name fields made fs ready done framed)
    (hdone : key ∉ done) (hkey : key ∉ ["argument", "expression", "consequent", "alternate", "body"]) :
    Fields.get? key fs = (Fields.get? key fields).map Tree.ofJson := by
  simp only [List.mem_cons, List.not_mem_nil, or_false, not_or] at hkey
  have hcompleted : Fields.get? key (completed type fields) = Fields.get? key fields :=
    get?_completed_of_ne (by simp [hkey])
  have hprepared : Fields.get? key (prepared type fields) = Fields.get? key fields := by
    rw [get?_prepared_eq, hcompleted]
    cases Fields.get? key fields with
    | none => rfl
    | some v => rw [Option.map_some, readyField_eq_self (by simp [hkey])]
  rw [h.fresh key hdone, h.waiting key hdone]
  split
  · rw [hprepared]
  · rw [hcompleted]

/-- The position of a node stays where it is. -/
theorem Underway.loc (h : Underway s₀ up type name fields ready done framed records s) (hdone : "loc" ∉ done) :
    Json.field "loc" s.focus.bare = Json.field "loc" (.obj fields) := by
  obtain ⟨seen, made, fs, c, rfl, hp⟩ := h
  simp only [Tree.bare_obj, Json.field, Json.get?, Fields.get?_mapValues, hp.get?_kept hdone (by decide)]
  cases Fields.get? "loc" fields <;> simp

theorem Underway.isNode (hsite : Site s₀ type fields) (h : Underway s₀ up type name fields ready done framed records s) :
    s.focus.isNode = true := by
  obtain ⟨seen, made, fs, c, rfl, hp⟩ := h
  obtain ⟨t, ht⟩ := Fields.exists_get?_of_names hp.names_tree
    (show Fields.get? "type" (completed type fields) = _ from get?_completed (by simp) (Fields.get?_of_type? hsite.type))
  change (Fields.get? "type" fs).isSome = true
  rw [ht]; rfl

theorem Site.isNode (hsite : Site s₀ type fields) : (Json.obj fields).isNode = true :=
  Json.isNode_of_type? (j := .obj fields) hsite.type

/-- The line of the focus is that of the node. -/
theorem Underway.line (hsite : Site s₀ type fields) (h : Underway s₀ up type name fields ready done framed records s)
    (hdone : "loc" ∉ done) {R : Json → Pass → Prop} (hR : ∀ line, Node.line (.obj fields) = .ok line → R line s) :
    Ensures Step.line s R := by
  have hloc := h.loc hdone
  have hnode := h.isNode hsite
  obtain ⟨seen, made, fs, c, rfl, hp⟩ := h
  exact ensures_line hsite.parts rfl hnode hsite.isNode hloc hR

/-! ## Frames -/

/-- What stands in a field that has been visited. -/
theorem Underway.rewrites (h : Underway s₀ up type name fields ready done framed records s) (hdone : key ∈ done)
    (hframed : key ∉ framed) {v : Json} (hv : Fields.get? key (prepared type fields) = some v) {t : Tree}
    (ht : (layer s.focus).require key = .ok t) :
    Rewrites s₀.code (mode type fields key) (classesAt s₀.classes type key name) (some (.obj fields)) v t.bare := by
  obtain ⟨seen, made, fs, c, rfl, hp⟩ := h
  obtain ⟨u, -, hu, hrw⟩ := hp.exists_visited hdone hframed hv
  rw [layer_obj, Layer.require_obj, hu] at ht
  cases ht
  exact hrw

/-- A node that has been visited is found where it was. -/
theorem Underway.child?_visited (h : Underway s₀ up type name fields ready done framed records s) (hdone : key ∈ done)
    (hframed : key ∉ framed) {v : Fields Json} (hv : Fields.get? key (prepared type fields) = some (.obj v))
    {R : Option Tree → Pass → Prop} (hR : ∀ t, R (some t) s) : Ensures (Step.child? key) s R := by
  obtain ⟨seen, made, fs, c, rfl, hp⟩ := h
  obtain ⟨t, -, ht, hrw⟩ := hp.exists_visited hdone hframed hv
  obtain ⟨out, hout⟩ := hrw.obj
  obtain ⟨seen', ts, rfl, -⟩ := Tree.of_bare_obj hout
  exact ensures_child?_some rfl ht (by simp) rfl (hR _)

/-- A field that has been visited is framed. -/
theorem Underway.setField (hsite : Site s₀ type fields) (h : Underway s₀ up type name fields ready done framed records s)
    (hdone : key ∈ done) (hframed : key ∉ framed) {t u : Tree} (ht : (layer s.focus).require key = .ok t)
    (hframe : ∀ made, Frame s₀.code s₀.classes up type fields made (frameKind type key) t.bare u.bare) :
    Ensures (Step.setField key u) s fun _ s' =>
      Underway s₀ up type name fields ready done (key :: framed) records s' := by
  obtain ⟨seen, made, fs, c, rfl, hp⟩ := h
  rw [layer_obj, Layer.require_obj] at ht
  have hmade : Fields.get? key made = some t.bare := by rw [← hp.unframed key hdone hframed, ht]; rfl
  have hnd : (Fields.names fs).Nodup := hp.names_tree ▸ nodup_completed hsite.proper.nodup
  rw [ensures_setField, Tree.setField_obj, Fields.set_eq_adjust _ hnd (Fields.mem_names_of_get? ht)]
  exact ⟨seen, made, _, c, rfl, hp.frame _ hdone hmade (hframe made)⟩

/-- A field that needs no frame. -/
theorem Underway.frameSelf (h : Underway s₀ up type name fields ready done framed records s) (key : String)
    (hframed : key ∉ framed)
    (hframe : ∀ made w, Frame s₀.code s₀.classes up type fields made (frameKind type key) w w) :
    Underway s₀ up type name fields ready done (key :: framed) records s := by
  obtain ⟨seen, made, fs, c, rfl, hp⟩ := h
  exact ⟨seen, made, fs, c, rfl, hp.frame_self hframed fun w _ => hframe made w⟩

theorem Underway.parts (hsite : Site s₀ type fields) (h : Underway s₀ up type name fields ready done framed records s) :
    s.parts = [] := by
  obtain ⟨seen, made, fs, c, rfl, hp⟩ := h
  exact hsite.parts

theorem Underway.code (h : Underway s₀ up type name fields ready done framed records s) : s.code = s₀.code := by
  obtain ⟨seen, made, fs, c, rfl, hp⟩ := h
  rfl

/-! ## Fields after a visit -/

/-- What a field shows after it has been visited. -/
theorem Underway.field_rewrites (h : Underway s₀ up type name fields ready done framed records s) (key : String)
    (hdone : key ∈ done) (hframed : key ∉ framed) (hready : ∀ v, readyField type key v = v) (hcompleted : completed type fields = fields)
    (hmode : mode type fields key = .visited) (hclasses : type ∉ classTypes) :
    Rewrites s₀.code .visited s₀.classes (some (.obj fields)) (Json.field key (.obj fields)) (Json.field key s.focus.bare) := by
  obtain ⟨seen, made, fs, c, rfl, hp⟩ := h
  simp only [Tree.bare_obj, Json.field, Json.get?, Fields.get?_mapValues, hp.unframed key hdone hframed]
  cases hv : Fields.get? key fields with
  | none =>
    have hnone : Fields.get? key made = none := by
      rw [Fields.get?_eq_none, hp.names_made, hcompleted]
      exact Fields.get?_eq_none.1 hv
    rw [hnone]
    exact .of_inert rfl
  | some v =>
    have hprepared : Fields.get? key (prepared type fields) = some v := by
      rw [get?_prepared_eq, hcompleted, hv, Option.map_some, hready]
    obtain ⟨t, ht, -, hrw⟩ := hp.exists_visited hdone hframed hprepared
    rw [hmode, classesAt, if_neg fun hc => hclasses hc.1] at hrw
    rw [ht]
    exact hrw

theorem Underway.plainField (hsite : Site s₀ type fields) (h : Underway s₀ up type name fields ready done framed records s)
    {R : Json → Pass → Prop} (hR : R (Json.field key s.focus.bare) s) : Ensures (Step.plainField key) s R := by
  obtain ⟨seen, made, fs, c, rfl, hp⟩ := h
  have hbare : ((Tree.obj seen fs).field key).expand s₀.parts = Json.field key (Tree.obj seen fs).bare := by
    rw [hsite.parts, Tree.expand_nil, bare_field]
  exact ensures_plainField.2 (hbare ▸ hR)

/-! ## The list in a block -/

theorem Rewriting.onList_obj {out : Fields Json} {l : List Json} {k : String} (g : List Json → List Json)
    (h : Fields.get? k out = some (.arr l)) : onList k g (.obj out) = .obj (Fields.set k (.arr (g l)) out) := by
  rw [onList, h]

/-- A block that was visited holds a list of statements. -/
theorem Rewrites.exists_body {code : Option String} {classes : List Json} {block : Fields Json} {w : Json}
    (htype : Fields.type? block = some "BlockStatement") (hproper : (Json.obj block).Proper)
    (h : Rewrites code .visited classes up (.obj block) w) : ∃ out ss items, w = .obj out ∧
      Fields.get? "body" block = some (.arr ss) ∧ Fields.get? "body" out = some (.arr items) ∧
      Rewrites code .statements classes (some (.obj block)) (.arr ss) (.arr items) := by
  obtain ⟨ss, hss, -⟩ := Json.fits_list (hproper.fits "body" htype rfl rfl)
  obtain ⟨out, x, name, rfl, hx, hrw⟩ := h.child htype (by decide) hss
  rw [show mode "BlockStatement" block "body" = .statements by simp [mode], classesAt, if_neg (by decide)] at hrw
  have hitems := hrw
  cases hrw with
  | statements _ _ _ ts => exact ⟨out, ss, _, rfl, hss, hx, hitems⟩

/-- The list in a field of a field of a node is changed. -/
theorem Underway.changeList {k : String} (hsite : Site s₀ type fields)
    (h : Underway s₀ up type name fields ready done framed records s)
    (hdone : key ∈ done) (hframed : key ∉ framed) {v : Json}
    (hprepared : Fields.get? key (prepared type fields) = some v)
    (hlist : ∀ w, Rewrites s₀.code (mode type fields key) (classesAt s₀.classes type key name) (some (.obj fields)) v w →
      ∃ out items, w = .obj out ∧ Fields.get? k out = some (.arr items))
    {e : Fault} {f : List Tree → List Tree} {g : List Json → List Json}
    (hf : ∀ ts, (f ts).map Tree.bare = g (ts.map Tree.bare))
    (hframe : ∀ made w, Fields.get? "test" made = Json.get? "test" s.focus.bare →
      Frame s₀.code s₀.classes up type fields made (frameKind type key) w (onList k g w))
    (htest : "test" ∉ framed) :
    Ensures (Step.inField key (Step.inField k (Step.changeList e f))) s fun _ s' =>
      Underway s₀ up type name fields ready done (key :: framed) records s' := by
  obtain ⟨seen, made, fs, c, rfl, hp⟩ := h
  obtain ⟨t, hmade, ht, hrw⟩ := hp.exists_visited hdone hframed hprepared
  obtain ⟨out, items, hout, hitems⟩ := hlist _ hrw
  obtain ⟨seen', ts, rfl, hts⟩ := Tree.of_bare_obj hout
  rw [← hts, Fields.get?_mapValues] at hitems
  obtain ⟨u, hu, hubare⟩ := Option.map_eq_some_iff.1 hitems
  obtain ⟨us, rfl, hus⟩ := Tree.of_bare_arr hubare
  have hnd : (Fields.names fs).Nodup := hp.names_tree ▸ nodup_completed hsite.proper.nodup
  refine ensures_inField rfl fun t' ht' => ?_
  rw [ht] at ht'
  cases ht'
  refine ⟨rfl, ensures_inField rfl fun u' hu' => ?_⟩
  rw [hu] at hu'
  cases hu'
  refine ⟨rfl, ensures_changeList.2 ?_⟩
  rintro _ ⟨⟩
  have hbare : (Tree.obj seen' (Fields.set k (.arr (f us)) ts)).bare = onList k g (Tree.obj seen' ts).bare := by
    have hget : Fields.get? k (Fields.mapValues Tree.bare ts) = some (.arr items) := by
      rw [Fields.get?_mapValues, hu, Option.map_some, hubare]
    rw [Tree.bare_obj, Tree.bare_obj, onList_obj g hget, Fields.mapValues_set, Tree.bare_arr, hf, hus]
  have hstep := hp.frame _ hdone hmade (t := Tree.obj seen' (Fields.set k (.arr (f us)) ts)) (by
    rw [hbare]
    refine hframe made _ ?_
    rw [Tree.bare_obj]
    exact (hp.bare htest).symm.trans (Fields.get?_mapValues ..).symm)
  refine ⟨seen, made, _, c, ?_, hstep⟩
  rw [Fields.set_eq_adjust _ hnd (Fields.mem_names_of_get? ht)]

/-- The list in a body is changed. -/
theorem Underway.changeBody (hsite : Site s₀ type fields) (h : Underway s₀ up type name fields ready done framed records s)
    (hdone : "body" ∈ done) (hframed : "body" ∉ framed) {block : Fields Json}
    (hprepared : Fields.get? "body" (prepared type fields) = some (.obj block))
    (hblock : Fields.type? block = some "BlockStatement") (hproper : (Json.obj block).Proper)
    (hmode : mode type fields "body" = .visited) {e : Fault} {f : List Tree → List Tree} {g : List Json → List Json}
    (hf : ∀ ts, (f ts).map Tree.bare = g (ts.map Tree.bare))
    (hframe : ∀ made w, Fields.get? "test" made = Json.get? "test" s.focus.bare →
      Frame s₀.code s₀.classes up type fields made (frameKind type "body") w (onList "body" g w))
    (htest : "test" ∉ framed) :
    Ensures (Step.inField "body" (Step.inField "body" (Step.changeList e f))) s fun _ s' =>
      Underway s₀ up type name fields ready done ("body" :: framed) records s' := by
  refine h.changeList hsite hdone hframed hprepared (fun w hrw => ?_) hf hframe htest
  rw [hmode] at hrw
  obtain ⟨out, ss, items, rfl, -, hitems, -⟩ := hrw.exists_body hblock hproper
  exact ⟨out, items, rfl, hitems⟩

/-- Looking whether the body holds a list changes nothing. -/
theorem ensures_checkBody {e : Fault} {R : Unit → Pass → Prop} {seen : Bool} {fs : Fields Tree}
    (hfocus : s.focus = .obj seen fs)
    (hbody : ∀ t, Fields.get? "body" fs = some t → ∃ seen' ts items, t = .obj seen' ts ∧
      Fields.get? "body" ts = some (.arr items)) (hR : R () s) :
    Ensures (Step.inField "body" (Step.inField "body" (Step.changeList e id))) s R := by
  refine ensures_inField hfocus fun t ht => ?_
  obtain ⟨seen', ts, items, rfl, hitems⟩ := hbody t ht
  refine ⟨rfl, ensures_inField rfl fun u hu => ?_⟩
  rw [hitems] at hu
  cases hu
  refine ⟨rfl, ensures_changeList.2 ?_⟩
  rintro _ ⟨⟩
  simp only [id, Fields.set_of_get? hitems, Fields.set_of_get? ht, ← hfocus]
  exact hR

theorem Underway.checkBody (h : Underway s₀ up type name fields ready done framed records s)
    (hdone : "body" ∈ done) (hframed : "body" ∉ framed) {block : Fields Json}
    (hprepared : Fields.get? "body" (prepared type fields) = some (.obj block))
    (hblock : Fields.type? block = some "BlockStatement") (hproper : (Json.obj block).Proper)
    (hmode : mode type fields "body" = .visited) {e : Fault} {R : Unit → Pass → Prop} (hR : R () s) :
    Ensures (Step.inField "body" (Step.inField "body" (Step.changeList e id))) s R := by
  obtain ⟨seen, made, fs, c, rfl, hp⟩ := h
  refine ensures_checkBody rfl (fun t ht => ?_) hR
  obtain ⟨t', hmade, ht', hrw⟩ := hp.exists_visited hdone hframed hprepared
  rw [ht] at ht'
  cases ht'
  rw [hmode] at hrw
  obtain ⟨out, ss, items, hout, -, hitems, -⟩ := hrw.exists_body hblock hproper
  obtain ⟨seen', ts, rfl, hts⟩ := Tree.of_bare_obj hout
  rw [← hts, Fields.get?_mapValues] at hitems
  obtain ⟨u, hu, hubare⟩ := Option.map_eq_some_iff.1 hitems
  obtain ⟨us, rfl, hus⟩ := Tree.of_bare_arr hubare
  exact ⟨seen', ts, us, rfl, hu⟩

/-! ## The end of a rule -/

/-- The fields that a type frames. -/
def frameKeys (type : String) : List String := Fields.names ((ofGroup type frameTable).getD [])

theorem frameKind_of_not_mem (h : key ∉ frameKeys type) : frameKind type key = .same := by
  rw [frameKind, Fields.get?_eq_none.2 h]; rfl

theorem readyField_of_not_visited {keys : List String} (hkeys : visitedFields type fields = some keys) (h : key ∉ keys)
    (v : Json) : readyField type key v = v := by
  unfold readyField
  split
  · next hc =>
    obtain ⟨rfl, hmem⟩ := hc
    rw [show visitedFields "IfStatement" fields = some ["test", "consequent", "alternate"] by
      simp [visitedFields, ofGroup, visitTable, functionTypes, classTypes, loopTypes]] at hkeys
    cases hkeys
    simp_all
  · split
    · next hc =>
      obtain ⟨hmem, rfl⟩ := hc
      exfalso
      simp only [loopTypes, List.mem_cons, List.not_mem_nil, or_false] at hmem
      rcases hmem with rfl | rfl | rfl | rfl | rfl <;>
        simp [visitedFields, ofGroup, visitTable, functionTypes, classTypes, loopTypes] at hkeys <;> simp [← hkeys] at h
    · split
      · next hc =>
        obtain ⟨hmem, rfl⟩ := hc
        exfalso
        simp only [functionTypes, List.mem_cons, List.not_mem_nil, or_false] at hmem
        rcases hmem with rfl | rfl | rfl <;>
          simp [visitedFields, ofGroup, visitTable, functionTypes, classTypes, loopTypes] at hkeys <;> simp [← hkeys] at h
      · rfl

theorem mode_of_not_visited {keys : List String} (hkeys : visitedFields type fields = some keys) (h : key ∉ keys) :
    mode type fields key = .kept := by
  have hlist : (type, key) ∉ [("Program", "body"), ("BlockStatement", "body"), ("SwitchCase", "consequent")] := by
    intro hmem
    simp only [List.mem_cons, Prod.mk.injEq, List.not_mem_nil, or_false] at hmem
    rcases hmem with ⟨rfl, rfl⟩ | ⟨rfl, rfl⟩ | ⟨rfl, rfl⟩ <;>
      simp [visitedFields, ofGroup, visitTable, functionTypes, classTypes, loopTypes] at hkeys <;> simp [← hkeys] at h
  simp only [mode, if_neg hlist, hkeys, if_neg h]

/-- A node all visited and framed fields of which have been dealt with. -/
theorem Underway.finish (hsite : Site s₀ type fields) (h : Underway s₀ up type name fields ready done framed records s)
    {keys : List String} (hkeys : visitedFields type fields = some keys) (hdone : ∀ key ∈ keys, key ∈ done)
    (hframed : ∀ key ∈ frameKeys type, key ∈ framed) (hrecords : records = (Json.obj fields).writes)
    (hname : type ∈ classTypes → className s₀.classes up type fields = .ok name) :
    ∃ t c, s = { s₀ with focus := t, queue := s₀.queue.push [] (Json.obj fields).writes, counter := c } ∧
      Rewrites s₀.code .visited s₀.classes up (.obj fields) t.bare := by
  obtain ⟨seen, made, fs, c, rfl, hp⟩ := h
  refine ⟨_, c, by rw [hrecords], hp.finish hsite.type hsite.proper hname (fun key _ hk => ?_) (fun key _ hk => ?_) seen⟩
  · have hnot : key ∉ keys := fun hm => hk (hdone key hm)
    exact ⟨mode_of_not_visited hkeys hnot, readyField_of_not_visited hkeys hnot⟩
  · exact frameKind_of_not_mem fun hm => hk (hframed key hm)

end Rule

end ScriptTrace
