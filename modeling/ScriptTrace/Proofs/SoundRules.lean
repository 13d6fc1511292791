import ScriptTrace.Proofs.SoundPasses

/-!
# Rules on sound nodes

Every rule keeps the node it works on a sound node of its type and meets no fault but those of the visitor it is given.
So a pass over a sound tree without shared parts ends with one.

* `At.function`, `At.branch`, `At.countedLoop`, ... : one rule after the other;
* `At.rule` : the rule of any type;
* `careful_visitWith` : the visitor of a depth keeps sound values sound.
-/

namespace ScriptTrace

open Step Grammar Rewriting

section Passes

variable {code : Option String} {E : Fault → Prop} {type key : String} {types : List String} {X : Fields Tree → Prop} {s : Pass}
  {visit : Visitor}

/-! ## Statements and members -/

section Rules

variable (hvisit : visit.Careful code E)

include hvisit

theorem At.block (h : At code type Plain s) (hfree : type ∉ constrained) (hslot : slotAt type "body" = some (.list listed)) :
    Yields (Visit.block visit) s (fun _ s' => At code type Plain s') E :=
  (h.inList (Y := Plain) "body" hfree hslot (by decide) (fun _ _ _ => trivial)
    fun _ _ htidy hfocus hts => yields_visitList hvisit htidy hfocus hts).mono fun _ _ h => h.1

theorem At.switchCase (h : At code "SwitchCase" Plain s) :
    Yields (Visit.switchCase visit) s (fun _ s' => At code "SwitchCase" Plain s') E := by
  unfold Visit.switchCase
  refine yields_bind.2 (h.visitOptional hvisit "test" lasting_plain (by decide) fun s' h => ?_)
  exact (h.inList (Y := Plain) "consequent" (by decide) rfl (by decide) (fun _ _ _ => trivial)
    fun _ _ htidy hfocus hts => yields_visitList hvisit htidy hfocus hts).mono fun _ _ h => h.1

theorem At.member {keys values : List String} (h : At code type Plain s) (hkey : slotAt type "key" = some (.node keys))
    (hvalue : slotAt type "value" = some (.node values)) : Yields (Visit.member visit) s (fun _ s' => At code type Plain s') E := by
  unfold Visit.member
  refine yields_bind.2 (h.flag "computed" fun b => yields_when (P := fun s' => At code type Plain s') ?_ (fun _ => h) ?_)
  · exact fun _ => h.visitField hvisit "key" hkey lasting_plain (by decide)
  · exact fun s' h => h.visitField hvisit "value" hvalue lasting_plain (by decide)

theorem At.returnStatement (h : At code "ReturnStatement" Plain s) :
    Yields (Visit.returnStatement visit) s (fun _ s' => At code "ReturnStatement" Plain s') E := by
  unfold Visit.returnStatement
  refine yields_bind.2 (h.visitOptional hvisit "argument" lasting_plain (by decide) fun s' h => ?_)
  refine yields_bind.2 (h.line fun line hline => yields_bind.2 ?_)
  have hset (t : Tree) (ht : t.SoundOf expressions) :
      Yields (Step.setField "argument" (Probe.result line t)) s' (fun _ s' => At code "ReturnStatement" Plain s') E := by
    have hresult : (Probe.result line t).SoundOf expressions :=
      (around_sound _ (List.forall_mem_singleton.2 ((literal_sound hline).mono (by decide))) ht).mono (by decide)
    exact h.setField (Y := Plain) "argument" (fun fs hof _ => hof.set_optional (by decide) rfl hresult (by decide))
      (fun _ _ => trivial) fun _ h => h
  refine h.child? "argument" (yields_pure.2 (hset _ (Tree.soundOf_ofProbe (voidZero_sound.mono (by decide)))))
    fun seen fs t hfocus hof _ hget hnull => ?_
  exact yields_bind.2 ((yields_place_of_get? hfocus hget).2 (hset t (hof.optional "argument" rfl hget hnull)))

/-! ## Classes -/

/-- The members of a class. -/
theorem At.members (h : At code "ClassBody" Plain s) : Yields (do
      if ← Step.flag "body" then
        let body ← Step.focus
        discard (Step.inField "body" (eachItem (visit (some body))))) s (fun _ s' => At code "ClassBody" Plain s' ∧ True) E := by
  refine yields_bind.2 (h.flag "body" fun b => yields_ite (fun _ => ?_) fun _ => yields_pure.2 ⟨h, trivial⟩)
  rw [yields_bind, yields_focus, yields_discard]
  refine (h.inList (Y := Plain) (Q := fun _ => True) "body" (by decide) rfl (by decide) (fun _ _ _ => trivial)
    fun s' ts htidy hfocus hts => ?_).mono fun _ _ h => h
  refine (yields_visitItems hvisit _ htidy hfocus (fun t ht => (hts t ht).sound) fun p hp => ?_).mono ?_
  · cases hp
    exact h.isParent
  · rintro _ s' ⟨htidy', us, hus, hall⟩
    refine ⟨htidy', ⟨us, hus, fun u hu => ?_⟩, trivial⟩
    obtain ⟨t, ht, hbecomes⟩ := exists_of_mem_forall₂ hall u hu
    exact hbecomes.soundOf (hts t ht)

/-- What a class is made of. -/
theorem At.classParts {name : Json} (h : At code type Plain s) (hslot : slotAt type "body" = some (.node ["ClassBody"]))
    (hname : name.IsText) : Yields (Visit.classParts visit name) s (fun _ s' => At code type Plain s') E := by
  unfold Visit.classParts
  refine yields_bind.2 (h.visitOptional hvisit "superClass" lasting_plain (by decide) fun s h => yields_inClass.2 ?_)
  have hinside : At code type Plain { s with classes := name :: s.classes } :=
    h.of_focus (h.tidy.withClasses (List.forall_mem_cons.2 ⟨hname, h.tidy.classes⟩)) rfl
  refine (hinside.inNode "ClassBody" "body" lasting_plain (by decide) (by decide) (fun _ _ _ hof _ => ?_) fun _ h => h.members hvisit).mono
    fun _ s' h' => h'.1.of_focus (h'.1.tidy.withClasses h.tidy.classes) rfl
  exact (hof.required "body" hslot).imp fun _ h => ⟨h.1, h.2.json.2⟩

theorem At.classDeclaration (h : At code "ClassDeclaration" Plain s) :
    Yields (Visit.classDeclaration visit) s (fun _ s' => At code "ClassDeclaration" Plain s') E := by
  have hrest (name : Json) (hname : name.IsText) : Yields (do
      Visit.classParts visit name
      queueBefore (.ofProbe (Probe.declared (← Step.line) name))) s (fun _ s' => At code "ClassDeclaration" Plain s') E := by
    refine (h.classParts hvisit rfl hname).bind fun _ s' h => yields_bind.2 (h.line fun line hline => ?_)
    exact yields_queueBefore.2 (h.of_focus (h.tidy.queueBefore (Tree.soundOf_ofProbe (declared_sound hline hname))) rfl)
  unfold Visit.classDeclaration Visit.className
  rw [yields_bind, yields_bind]
  refine h.plainOptional "id" rfl (yields_ite (fun htrue => by cases htrue) fun _ => yields_pure.2 (hrest _ ⟨_, rfl⟩)) fun v hv => ?_
  refine yields_ite (fun _ => yields_lift.2 ?_) fun _ => yields_pure.2 (hrest _ ⟨_, rfl⟩)
  obtain ⟨_, fields, rfl, hmem, hof⟩ := hv.exists_node
  cases List.mem_singleton.1 hmem
  exact EndsIn.faults (hof.requireName.mono hrest) nofun

omit hvisit in
/-- The name of a function or a class. -/
theorem At.name {R : Json → Pass → Prop} {parent : Option Tree} (h : At code type X s)
    (hslot : slotAt type "id" = some (.optional ["Identifier"])) (hparent : ∀ p, parent = some p → p.Sound ∧ p.isNode = true)
    (hR : ∀ name, name.IsText → R name s) : Yields (Visit.name parent) s R E := by
  obtain ⟨seen, fs, hfocus, hof, -⟩ := h.focus
  unfold Visit.name
  rw [yields_bind, yields_focus, yields_bind, yields_plain, h.tidy.expand, hfocus, Tree.bare_obj]
  extract_lets rest
  have hrest (up : Option Json) (hup : ∀ p, up = some p → ∃ ptype pfields, p = .obj pfields ∧ NodeOf ptype pfields) :
      Yields (rest up) s R E :=
    yields_bind.2 (yields_get.2 (yields_lift.2
      (EndsIn.faults ((functionName_text h.tidy.classes hof.node hslot hup).mono hR) nofun)))
  cases parent with
  | none => exact yields_bind.2 (yields_pure.2 (hrest none nofun))
  | some p =>
    refine yields_bind.2 (yields_map.2 (yields_plain.2 (hrest _ ?_)))
    rintro _ ⟨⟩
    obtain ⟨hsound, hnode⟩ := hparent p rfl
    obtain ⟨ptype, pseen, pfs, rfl, hpof⟩ := hsound.exists_tree hnode
    rw [h.tidy.expand, Tree.bare_obj]
    exact ⟨ptype, _, rfl, hpof.node⟩

theorem At.classExpression {parent : Option Tree} (h : At code "ClassExpression" Plain s)
    (hparent : ∀ p, parent = some p → p.Sound ∧ p.isNode = true) :
    Yields (Visit.classExpression visit parent) s (fun _ s' => At code "ClassExpression" Plain s') E := by
  unfold Visit.classExpression
  exact yields_bind.2 (h.name rfl hparent fun name hname => h.classParts hvisit rfl hname)

/-! ## Declarations and assignments -/

omit hvisit in
/-- Records of the names that a declarator binds. -/
theorem At.queueNames {names : List Json} (h : At code type Plain s) (hnames : Texts names) : Yields (do
      for name in names do
        queueAfter (.ofProbe (Probe.localsStatement "declare" (← Step.line) [.named name]))) s (fun _ s' => At code type Plain s') E := by
  refine (yields_forIn (I := At code type Plain) names s (fun name hmem s h => ?_) h).bind fun _ _ h => yields_pure.2 h
  refine yields_bind.2 (h.line fun line hline => yields_bind.2 (yields_queueAfter.2 (yields_pure.2 ⟨rfl, ?_⟩)))
  refine h.of_focus (h.tidy.queueAfter (Tree.soundOf_ofProbe (localsStatement_sound hline ?_))) rfl
  exact List.forall_mem_singleton.2 (Target.named_sound (hnames name hmem))

theorem At.declarator (h : At code "VariableDeclarator" Plain s) :
    Yields (Visit.declarator visit) s (fun _ s' => At code "VariableDeclarator" Plain s') E := by
  unfold Visit.declarator
  refine yields_bind.2 (h.visitOptional hvisit "init" lasting_plain (by decide) fun s' h => ?_)
  rw [yields_bind, yields_get]
  refine yields_ite (fun _ => yields_bind.2 (h.place "id" rfl fun t ht => ?_)) fun _ => yields_pure.2 h
  rw [yields_bind, yields_plain, h.tidy.expand, yields_bind, yields_lift]
  exact EndsIn.faults (ht.json.1.bindingNames.mono fun names hnames => h.queueNames hnames) nofun

theorem At.declaration (h : At code "VariableDeclaration" Plain s) :
    Yields (Visit.declaration visit) s (fun _ s' => At code "VariableDeclaration" Plain s') E := by
  unfold Visit.declaration
  rw [yields_discard]
  refine (h.inList (Y := Plain) (Q := fun _ => True) "declarations" (by decide) rfl (by decide) (fun _ _ _ => trivial)
    fun s ts htidy hfocus hts => ?_).mono fun _ _ h => h.1
  refine (yields_eachItem (S := Tidy code) (R := fun _ u => u.SoundOf ["VariableDeclarator"]) (A := fun _ => True)
    (fun _ t h => h.focus t) hfocus htidy fun t ht => ⟨(hts t ht).whole.isShared, fun s hs hf => ?_⟩).mono ?_
  · obtain ⟨_, seen, fs, rfl, hmem, hof⟩ := (hts t ht).exists_tree
    cases List.mem_singleton.1 hmem
    refine (At.declarator hvisit (hof.at_focus hs hf trivial)).mono fun _ s' h => ⟨h.tidy, ?_, trivial⟩
    exact (h.becomes (t := .obj seen fs) hof.type? (by decide)).soundOf (hts _ ht)
  · rintro _ s' ⟨htidy', ⟨us, hus, hall⟩, -⟩
    exact ⟨htidy', ⟨us, hus, fun u hu => (exists_of_mem_forall₂ hall u hu).elim fun _ h => h.2⟩, trivial⟩

omit hvisit in
theorem At.queueAssign (key : String) (h : At code type Plain s) (hslot : slotAt type key = some (.node types)) :
    Yields (Visit.queueAssign key) s (fun _ s' => At code type Plain s') E := by
  unfold Visit.queueAssign
  refine yields_bind.2 (h.place key hslot fun t ht => ?_)
  rw [yields_bind, yields_plain, h.tidy.expand, yields_bind, yields_lift]
  refine EndsIn.faults (ht.json.1.targetsOf.mono fun targets htargets => ?_) nofun
  refine yields_bind.2 (yields_get.2 (yields_ite (fun _ => ?_) fun _ => yields_pure.2 h))
  refine yields_bind.2 (h.line fun line hline => yields_queueAfter.2 ?_)
  exact h.of_focus (h.tidy.queueAfter (Tree.soundOf_ofProbe (localsStatement_sound hline htargets))) rfl

theorem At.assignment (h : At code "AssignmentExpression" Plain s) :
    Yields (Visit.assignment visit) s (fun _ s' => At code "AssignmentExpression" Plain s') E := by
  unfold Visit.assignment
  refine (h.visitField hvisit "left" rfl lasting_plain (by decide)).bind fun _ s h => ?_
  refine (h.visitField hvisit "right" rfl lasting_plain (by decide)).bind fun _ s h => ?_
  exact h.queueAssign "left" rfl

theorem At.update (h : At code "UpdateExpression" Plain s) :
    Yields (Visit.update visit) s (fun _ s' => At code "UpdateExpression" Plain s') E := by
  unfold Visit.update
  exact (h.visitField hvisit "argument" rfl lasting_plain (by decide)).bind fun _ s h => h.queueAssign "argument" rfl

/-! ## Calls -/

theorem At.call (h : At code "CallExpression" Plain s) :
    Yields (Visit.call visit) s (fun _ s' => At code "CallExpression" Plain s') E := by
  unfold Visit.call
  refine (h.visitFields hvisit).bind fun _ s h => yields_bind.2 (h.place "callee" rfl fun t ht => ?_)
  rw [yields_bind, yields_plain, h.tidy.expand, yields_bind, yields_lift]
  refine EndsIn.faults ((isConsole_ok ht.json).mono fun console _ => yields_ite (fun _ => ?_) fun _ => yields_pure.2 h) nofun
  obtain ⟨seen, fs, hfocus, hof, -⟩ := h.focus
  obtain ⟨ts, hget, hts⟩ := hof.list "arguments" rfl
  refine yields_bind.2 ((yields_place_of_get? hfocus hget).2 (yields_bind.2 ?_))
  have hprint : (Tree.ofProbe (.ident (.str Probe.printName))).SoundOf expressions :=
    Tree.soundOf_ofProbe ((ident_sound ⟨_, rfl⟩).mono (by decide))
  refine h.setField (Y := Plain) "callee" (fun fs hof _ => hof.set_node (by decide) rfl hprint (by decide)) (fun _ _ => trivial)
    fun s h => yields_bind.2 (h.line fun line hline => ?_)
  refine h.setField (Y := Plain) "arguments" (fun fs hof _ => hof.set_list (by decide) rfl ?_ (by decide))
    (fun _ _ => trivial) fun s h => h
  refine List.forall_mem_cons.2 ⟨Tree.soundOf_ofProbe ((literal_sound hline).mono (by decide)), List.forall_mem_singleton.2 ?_⟩
  exact (array_sound hts).mono (by decide)

/-! ## Blocks around statements and expressions -/

omit hvisit in
/-- The statement under `key` becomes a block. -/
theorem At.asBlock {slot : Slot} {seen : Bool} {fs : Fields Tree} {t : Tree} (key : String) (h : At code type Plain s)
    (hfree : type ∉ constrained) (hslot : slotAt type key = some slot) (hstatement : slot = .node statements ∨ slot = .optional statements)
    (hkey : key ≠ "type") (hfocus : s.focus = .obj seen fs) (hget : Fields.get? key fs = some t) (ht : t.SoundOf statements) :
    Yields (Visit.asBlock key) s (fun _ s' => At code type (BlockAt key) s') E := by
  obtain ⟨seen', fs', hfocus', hof, -⟩ := h.focus
  cases hfocus.symm.trans hfocus'
  obtain ⟨ttype, tseen, tfs, rfl, -, htof⟩ := ht.exists_tree
  unfold Visit.asBlock
  extract_lets finish
  have hfinish (s : Pass) (h : At code type (BlockAt key) s) : Yields (finish ()) s (fun _ s' => At code type (BlockAt key) s') E := by
    obtain ⟨_, _, hfocus, -, _, hget, -⟩ := h.focus
    exact yields_discard.2 ((yields_place_of_get? hfocus hget).2 h)
  refine yields_bind.2 (yields_child? hfocus (fun hnone => ?_) fun u hu _ => ?_)
  · rcases hnone with hnone | hnone <;> rw [hget] at hnone <;> cases hnone
  cases hget.symm.trans hu
  refine ⟨rfl, yields_ite (fun _ => ?_) fun hnot => absurd htof.isNode hnot⟩
  rw [htof.hasType, yields_bind, yields_lift, ends_ok]
  refine yields_ite (fun hblock => hfinish s ?_) fun _ => yields_bind.2 ((yields_place_of_get? hfocus hget).2 (yields_bind.2 ?_))
  · refine hof.at_focus h.tidy hfocus ⟨_, hget, ?_⟩
    rw [Tree.bare_obj, Json.isOneOf_obj htof.node.type, beq_iff_eq.1 hblock]
    rfl
  · have hmade : (Probe.block [.obj tseen tfs]).SoundOf ["BlockStatement"] :=
      block_sound (List.forall_mem_singleton.2 (ht.mono fun _ => List.mem_cons_of_mem _))
    refine h.setField (Y := BlockAt key) key (fun fs hof _ => ?_) (fun fs _ => ⟨_, by rw [Fields.get?_set, if_pos rfl], hmade.json.2⟩) hfinish
    rcases hstatement with rfl | rfl
    · exact hof.set_node hfree hslot (hmade.mono (by decide)) hkey
    · exact hof.set_optional hfree hslot (hmade.mono (by decide)) hkey

omit hvisit in
/-- The statement that a field holds becomes a block. -/
theorem At.asBlock_node (key : String) (h : At code type Plain s) (hfree : type ∉ constrained)
    (hslot : slotAt type key = some (.node statements)) (hkey : key ≠ "type") :
    Yields (Visit.asBlock key) s (fun _ s' => At code type (BlockAt key) s') E := by
  obtain ⟨seen, fs, hfocus, hof, -⟩ := h.focus
  obtain ⟨t, hget, ht⟩ := hof.required key hslot
  exact h.asBlock key hfree hslot (.inl rfl) hkey hfocus hget ht

omit hvisit in
/-- What a function has for its body. -/
theorem TreeOf.body {fs : Fields Tree} (h : TreeOf type fs) (hfunction : type ∈ functionTypes) : ∃ t, Fields.get? "body" fs = some t ∧
    (t.SoundOf ["BlockStatement"] ∨ type = "ArrowFunctionExpression" ∧ t.SoundOf expressions) := by
  simp only [functionTypes, List.mem_cons, List.not_mem_nil, or_false] at hfunction
  rcases hfunction with rfl | rfl | rfl
  · exact (h.required "body" rfl).imp fun t ht => ⟨ht.1, .inl ht.2⟩
  · exact (h.required "body" rfl).imp fun t ht => ⟨ht.1, .inl ht.2⟩
  · obtain ⟨t, hget, ht⟩ := h.required "body" rfl
    refine ⟨t, hget, ?_⟩
    obtain ⟨ttype, seen, fs, rfl, hmem, hof⟩ := ht.exists_tree
    rcases List.mem_cons.1 hmem with rfl | hmem
    · exact .inl (hof.soundOf seen List.mem_cons_self)
    · exact .inr ⟨rfl, hof.soundOf seen hmem⟩

omit hvisit in
/-- The body of a function becomes a block. -/
theorem At.arrowBody (h : At code type Plain s) (hfunction : type ∈ functionTypes) :
    Yields Visit.arrowBody s (fun _ s' => At code type (BlockAt "body") s') E := by
  obtain ⟨seen, fs, hfocus, hof, -⟩ := h.focus
  obtain ⟨t, hget, hbody⟩ := hof.body hfunction
  unfold Visit.arrowBody
  refine yields_bind.2 (yields_child hfocus (fun hnone => by rw [hget] at hnone; cases hnone) fun u hu => ?_)
  cases hget.symm.trans hu
  refine ⟨(hof.field hget).whole.isShared, ?_⟩
  have hnode : ∃ ttype seen fs, t = .obj seen fs ∧ TreeOf ttype fs ∧ (ttype = "BlockStatement" ∨
      type = "ArrowFunctionExpression" ∧ ttype ≠ "BlockStatement" ∧ t.SoundOf expressions) := by
    rcases hbody with ht | ⟨harrow, ht⟩ <;> obtain ⟨ttype, seen, fs, rfl, hmem, htof⟩ := ht.exists_tree
    · exact ⟨ttype, seen, fs, rfl, htof, .inl (List.mem_singleton.1 hmem)⟩
    · exact ⟨ttype, seen, fs, rfl, htof, .inr ⟨harrow, fun he => by subst he; revert hmem; decide, ht⟩⟩
  obtain ⟨ttype, tseen, tfs, rfl, htof, hcase⟩ := hnode
  rw [htof.hasType, yields_bind, yields_lift, ends_ok]
  rcases hcase with rfl | ⟨rfl, hother, ht⟩
  · exact yields_ite (fun _ => yields_pure.2 (hof.at_focus h.tidy hfocus ⟨_, hget, (htof.soundOf tseen List.mem_cons_self).json.2⟩))
      fun hnot => absurd rfl hnot
  refine yields_ite (fun hblock => absurd (beq_iff_eq.1 hblock) hother) fun _ => yields_bind.2 ((yields_place_of_get? hfocus hget).2 ?_)
  have hmade : (Probe.block [answerOf (.obj tseen tfs)]).SoundOf ["BlockStatement"] :=
    block_sound (List.forall_mem_singleton.2 ((answerOf_sound ht).mono (by decide)))
  refine yields_bind.2 (h.setField (Y := BlockAt "body") "body" (fun fs hof _ => hof.set_node (by decide) rfl (hmade.mono (by decide)) (by decide))
    (fun fs _ => ⟨_, by rw [Fields.get?_set, if_pos rfl]; rfl, hmade.json.2⟩) fun s h => ?_)
  refine h.setField (Y := BlockAt "body") "expression"
    (fun fs hof _ => hof.set (by decide) rfl rfl (Tree.sound_of_atom rfl) (by decide)) (fun fs hblock => ?_) fun s h => h
  obtain ⟨t, hget, hone⟩ := hblock
  exact ⟨t, by rw [Fields.get?_set, if_neg (by decide), hget], hone⟩

/-! ## Functions -/

omit hvisit in
theorem At.paramNames {R : List Json → Pass → Prop} (h : At code type X s) (hslot : slotAt type "params" = some (.list patterns))
    (hR : ∀ names, Texts names → R names s) : Yields Visit.paramNames s R E := by
  obtain ⟨seen, fs, hfocus, hof, -⟩ := h.focus
  obtain ⟨ts, hget, hts⟩ := hof.list "params" hslot
  unfold Visit.paramNames
  have hfield : (s.focus.field "params").bare = .arr (ts.map Tree.bare) := by
    rw [hfocus, ← Tree.bare_arr]
    exact congrArg (fun o => (o.getD Tree.null).bare) hget
  rw [yields_bind, yields_plainField, h.tidy.expand, hfield]
  refine yields_ite (fun _ => ?_) fun _ => yields_pure.2 (hR _ (List.forall_mem_nil _))
  rw [yields_bind, yields_lift]
  exact yields_lift.2 (EndsIn.faults ((allBindingNames_text (List.forall_mem_map.2 fun t ht => (hts t ht).json.1)).mono hR) nofun)

omit hvisit in
theorem yields_directives {R : Nat → Pass → Prop} {ts : List Tree} (htidy : Tidy code s) (hts : ∀ t ∈ ts, t.SoundOf listed)
    (hR : ∀ k, R k s) : Yields (Visit.directiveCount ts) s R E := by
  induction ts generalizing R with
  | nil => exact yields_pure.2 (hR 0)
  | cons t ts ih =>
    obtain ⟨ht, hrest⟩ := List.forall_mem_cons.1 hts
    obtain ⟨_, seen, fs, rfl, -, hof⟩ := ht.exists_tree
    unfold Visit.directiveCount
    rw [yields_bind, yields_plain, htidy.expand, Tree.bare_obj, yields_bind, yields_lift]
    refine EndsIn.faults ((hof.node.flag "directive").mono fun _ _ => yields_ite (fun _ => ?_) fun _ => yields_pure.2 (hR 0))
      fun _ h => absurd h id
    exact yields_bind.2 (ih hrest fun k => yields_pure.2 (hR (k + 1)))

omit hvisit in
theorem yields_falls {R : Bool → Pass → Prop} {ts : List Tree} (hts : ∀ t ∈ ts, t.SoundOf listed) (hR : ∀ b, R b s) :
    Yields (Visit.fallsOff ts) s R E := by
  unfold Visit.fallsOff
  split
  · exact yields_pure.2 (hR _)
  · next t ht =>
    obtain ⟨_, seen, fs, rfl, -, hof⟩ := (hts _ (List.mem_of_getLast? ht)).exists_tree
    refine yields_bind.2 ((yields_resolve rfl).2 ?_)
    rw [hof.hasType, yields_bind, yields_lift]
    exact yields_pure.2 (hR _)

omit hvisit in
/-- The body of a function, from its statements. -/
theorem At.instrumented {R : List Tree → Pass → Prop} {name : Json} {ts : List Tree} (h : At code type X s)
    (hslot : slotAt type "params" = some (.list patterns)) (hname : name.IsText) (hts : ∀ t ∈ ts, t.SoundOf listed)
    (hR : ∀ body, (∀ t ∈ body, t.SoundOf listed) → R body s) : Yields (Visit.instrumented name ts) s R E := by
  have hprobe {j : Json} (hj : j.SoundOf ["ExpressionStatement"]) : (Tree.ofProbe j).SoundOf listed :=
    (Tree.soundOf_ofProbe hj).mono (by decide)
  unfold Visit.instrumented
  refine yields_bind.2 (h.paramNames hslot fun names hnames => yields_bind.2 (h.line fun line hline => ?_))
  extract_lets entry
  refine yields_bind.2 (yields_directives h.tidy hts fun count => ?_)
  extract_lets rest finish
  have hrest : ∀ t ∈ rest, t.SoundOf listed := fun t ht => hts t (List.mem_of_mem_drop ht)
  have hfinish (rest : List Tree) (hrest : ∀ t ∈ rest, t.SoundOf listed) : Yields (finish rest) s R E := by
    refine yields_bind.2 (h.endLine fun last hlast => yields_pure.2 (hR _ (List.forall_mem_append.2 ⟨?_, ?_⟩)))
    · exact fun t ht => hts t (List.mem_of_mem_take ht)
    · refine List.forall_mem_cons.2 ⟨hprobe (called_sound hline hname hnames), List.forall_mem_singleton.2 ?_⟩
      exact (guard_sound hlast hname hrest).mono (by decide)
  refine yields_bind.2 (yields_falls hrest fun falls => yields_ite (fun _ => ?_) fun _ => ?_)
  · refine yields_bind.2 (h.endLine fun last hlast => yields_bind.2 (yields_pure.2 (hfinish _ ?_)))
    exact List.forall_mem_append.2 ⟨hrest, List.forall_mem_singleton.2 (hprobe (returned_sound hlast))⟩
  · exact yields_bind.2 (yields_pure.2 (hfinish _ hrest))

/-- The parameters are visited, each with a queue of its own. -/
theorem At.params (h : At code type X s) (hX : Lasting X) (hslot : slotAt type "params" = some (.list patterns)) :
    Yields (Visit.params visit) s (fun _ s' => At code type X s') E := by
  have hquiet : Visitor.Careful code E fun parent => quietly (visit parent) := by
    intro parent s htidy hfocus hparent
    refine yields_quietly.2 ((hvisit parent _ (htidy.emptyQueue false) hfocus hparent).mono fun _ s' h => ?_)
    exact ⟨h.1.withQueue htidy.queue, h.2⟩
  unfold Visit.params
  refine yields_bind.2 (h.flag "params" fun b => yields_ite (fun _ => ?_) fun _ => yields_pure.2 h)
  rw [yields_bind, yields_focus, yields_discard]
  refine (h.inField (Y := X) (Q := fun _ => True) "params" fun seen fs _ hof hXfs => ?_).mono fun _ _ h => h.1
  obtain ⟨ts, hget, hts⟩ := hof.list "params" hslot
  refine ⟨_, hget, (yields_visitItems hquiet (some s.focus) (h.tidy.focus _) rfl (fun t ht => (hts t ht).sound) fun p hp => ?_).mono ?_⟩
  · cases hp
    exact h.isParent
  · rintro _ s' ⟨htidy, us, hus, hall⟩
    have hagrees := (agreesEach_arr hall).1
    rw [hus]
    exact ⟨htidy, hof.set_agrees hget hagrees (agreesEach_arr hall).2 (by decide), hX _ _ _ _ hXfs hget hagrees, trivial⟩

omit hvisit in
/-- The body of a function is marked. -/
theorem At.markBody (h : At code type (BlockAt "body") s) :
    Yields (Step.inField "body" mark) s (fun _ s' => At code type (BlockAt "body") s') E := by
  refine (h.inNode (Q := fun _ => True) "BlockStatement" "body" (lasting_holdsAt _ _) (by decide) (by decide)
    (fun _ _ _ _ hblock => hblock) fun s h => yields_mark.2 ⟨?_, trivial⟩).mono fun _ _ h => h.1
  obtain ⟨seen, fs, hfocus, hof, -⟩ := h.focus
  exact hof.at_focus (h.tidy.focus _) (by rw [hfocus]; rfl) trivial

theorem At.function {parent : Option Tree} (h : At code type Plain s) (hfunction : type ∈ functionTypes)
    (hparent : ∀ p, parent = some p → p.Sound ∧ p.isNode = true) :
    Yields (Visit.function visit parent) s (fun _ s' => At code type Plain s') E := by
  have hslots : slotAt type "id" = some (.optional ["Identifier"]) ∧ slotAt type "params" = some (.list patterns) := by
    simp only [functionTypes, List.mem_cons, List.not_mem_nil, or_false] at hfunction
    rcases hfunction with rfl | rfl | rfl <;> exact ⟨rfl, rfl⟩
  unfold Visit.function
  refine (h.arrowBody hfunction).bind fun _ s h => ?_
  obtain ⟨seen, fs, hfocus, hof, b, hget, -⟩ := h.focus
  refine yields_bind.2 (yields_child hfocus (fun hnone => by rw [hget] at hnone; cases hnone) fun t ht => ?_)
  refine ⟨(hof.field ht).whole.isShared, yields_ite (fun _ => yields_pure.2 h.plain) fun _ => ?_⟩
  refine h.markBody.bind fun _ s h => yields_bind.2 (h.name hslots.1 hparent fun name hname => ?_)
  refine (h.params hvisit (lasting_holdsAt _ _) hslots.2).bind fun _ s h => ?_
  refine (h.inBlock "body" (lasting_holdsAt _ _) (fun _ => id) (by decide)
    fun _ _ htidy hfocus hts => yields_visitStatements hvisit htidy hfocus hts).bind ?_
  rintro statements s ⟨h, hstatements⟩
  refine yields_bind.2 (h.instrumented hslots.2 hname hstatements fun body hbody => ?_)
  refine (h.inBlock (Q := fun _ => True) "body" (lasting_holdsAt _ _) (fun _ => id) (by decide)
    fun s ts htidy hfocus _ => ?_).mono fun _ _ h => h.1.plain
  exact (yields_changeList_arr hfocus).2 ⟨htidy.focus _, ⟨body, rfl, hbody⟩, trivial⟩

/-! ## Branches and loops -/

theorem At.branch (h : At code "IfStatement" Plain s) :
    Yields (Visit.branch visit) s (fun _ s' => At code "IfStatement" Plain s') E := by
  unfold Visit.branch
  refine (h.visitField hvisit "test" rfl lasting_plain (by decide)).bind fun _ s h => yields_bind.2 (h.place "test" rfl fun t ht => ?_)
  refine yields_bind.2 (h.conditionText ht fun text => yields_bind.2 (h.line fun line hline => yields_bind.2 ?_))
  have htest : (Probe.test (.str text) line t).SoundOf expressions := by
    refine (around_sound _ (List.forall_mem_cons.2 ⟨?_, List.forall_mem_singleton.2 ?_⟩) ht).mono (by decide)
    · exact (literal_sound rfl).mono (by decide)
    · exact (literal_sound hline).mono (by decide)
  refine h.setField (Y := Plain) "test" (fun fs hof _ => hof.set_node (by decide) rfl htest (by decide)) (fun _ _ => trivial) fun s h => ?_
  have hvisits (s : Pass) (h : At code "IfStatement" Plain s) : Yields (do
      Visit.field visit "consequent"
      if (← Step.child? "alternate").isSome then Visit.field visit "alternate") s (fun _ s' => At code "IfStatement" Plain s') E := by
    refine (h.visitField hvisit "consequent" rfl lasting_plain (by decide)).bind fun _ s h => yields_bind.2 ?_
    refine h.child? "alternate" (yields_pure.2 h) fun seen fs t hfocus _ _ hget _ => ?_
    exact h.visitThere hvisit "alternate" lasting_plain (by decide) hfocus hget
  refine (h.asBlock_node "consequent" (by decide) rfl (by decide)).bind fun _ s h => yields_bind.2 ?_
  refine h.child? "alternate" (hvisits s h.plain) fun seen fs t hfocus hof _ hget hnull => ?_
  exact (h.plain.asBlock "alternate" (by decide) rfl (.inr rfl) (by decide) hfocus hget (hof.optional "alternate" rfl hget hnull)).bind
    fun _ s h => hvisits s h.plain

omit hvisit in
/-- The statements of the body are changed to other sound ones. -/
theorem At.changeBody {e : Fault} {f : List Tree → List Tree} (h : At code type X s) (hX : Lasting X)
    (hblock : ∀ fs, X fs → BlockAt "body" fs) (hf : ∀ ts, (∀ t ∈ ts, t.SoundOf listed) → ∀ t ∈ f ts, t.SoundOf listed) :
    Yields (Step.inField "body" (Step.inField "body" (changeList e f))) s (fun _ s' => At code type X s') E := by
  refine (h.inBlock (Q := fun _ => True) "body" hX hblock (by decide) fun s ts htidy hfocus hts => ?_).mono fun _ _ h => h.1
  exact (yields_changeList_arr hfocus).2 ⟨htidy.focus _, ⟨_, rfl, hf ts hts⟩, trivial⟩

/-- The body of a loop becomes a block and is visited. -/
theorem At.loopBody (h : At code type Plain s) (hfree : type ∉ constrained) (hslot : slotAt type "body" = some (.node statements)) :
    Yields (do Visit.asBlock "body"; Visit.field visit "body") s (fun _ s' => At code type (BlockAt "body") s') E :=
  (h.asBlock_node "body" hfree hslot (by decide)).bind fun _ _ h =>
    h.visitField hvisit "body" hslot (lasting_holdsAt _ _) (by decide)

theorem At.loop (word : String) (h : At code type Plain s) (hfree : type ∉ constrained)
    (hslot : slotAt type "body" = some (.node statements)) :
    Yields (Visit.loop visit word) s (fun _ s' => At code type Plain s') E := by
  unfold Visit.loop
  refine (h.visitHeader hvisit "left" lasting_plain (by decide)).bind fun _ s h => ?_
  refine (h.visitHeader hvisit "right" lasting_plain (by decide)).bind fun _ s h => ?_
  refine (h.visitHeader hvisit "test" lasting_plain (by decide)).bind fun _ s h => ?_
  have hbody := h.loopBody hvisit hfree hslot
  rw [yields_bind] at hbody
  refine yields_bind.2 (hbody.mono fun _ s hbody => hbody.bind fun _ s h => yields_bind.2 (h.line fun line hline => ?_))
  refine yields_bind.2 (h.plainField "left" fun left hleft => yields_bind.2 (yields_lift.2 ?_))
  refine EndsIn.faults ((iterationProbes_sound hline hleft).mono fun probes hprobes => ?_) nofun
  refine (h.changeBody (lasting_holdsAt _ _) (fun _ => id) fun ts hts => List.forall_mem_append.2 ⟨?_, hts⟩).mono fun _ _ h => h.plain
  refine List.forall_mem_map.2 (List.forall_mem_cons.2 ⟨?_, fun p hp => ?_⟩)
  · refine (Tree.soundOf_ofProbe (statement_sound hline (List.forall_mem_singleton.2 ?_))).mono (by decide)
    exact (literal_sound rfl).mono (by decide)
  · exact (Tree.soundOf_ofProbe (hprobes p hp)).mono (by decide)

omit hvisit in
/-- What a counted loop starts with, when it is a declaration. -/
theorem At.initDeclaration {line : Json} {names : List Json} {n : Nat} {seen : Bool} {fs : Fields Tree} {t : Tree}
    (h : At code "ForStatement" Plain s) (hline : line.isAtom = true) (hnames : Texts names) (hsome : names ≠ [])
    (hfocus : s.focus = .obj seen fs) (hget : Fields.get? "init" fs = some t) (ht : t.bare.isOneOf ["VariableDeclaration"] = true) :
    Yields (Step.inField "init" (Step.inField "declarations" (changeList .unsupported
      (· ++ [.ofProbe (Probe.initDeclarator n (names.map fun n => Probe.locals "declare" line [.named n]))])))) s
      (fun _ s' => At code "ForStatement" Plain s') E := by
  refine (h.inNode (Q := fun _ => True) "VariableDeclaration" "init" lasting_plain (by decide) (by decide) ?_ fun s h => ?_).mono
    fun _ _ h => h.1
  · rintro seen' fs' hfocus' - -
    cases hfocus.symm.trans hfocus'
    exact ⟨t, hget, ht⟩
  · refine h.inList "declarations" (by decide) rfl (by decide) (fun _ _ _ => trivial) fun s ts htidy hfocus hts => ?_
    refine (yields_changeList_arr hfocus).2 ⟨htidy.focus _, ⟨_, rfl, List.forall_mem_append.2 ⟨hts, ?_⟩⟩, trivial⟩
    refine List.forall_mem_singleton.2 (Tree.soundOf_ofProbe (initDeclarator_sound n (by simpa using hsome) fun p hp => ?_))
    obtain ⟨name, hname, rfl⟩ := List.mem_map.1 hp
    exact (locals_sound hline (List.forall_mem_singleton.2 (Target.named_sound (hnames name hname)))).mono (by decide)

omit hvisit in
/-- A header is followed by a probe. -/
theorem At.followHeader {probe : Json} {seen : Bool} {fs : Fields Tree} {t : Tree} {types : List String} (key : String)
    (h : At code "ForStatement" Plain s) (hslot : slotAt "ForStatement" key = some (.optional types)) (hkey : key ≠ "type")
    (htypes : "SequenceExpression" ∈ types) (hprobe : probe.SoundOf expressions) (hfocus : s.focus = .obj seen fs)
    (hget : Fields.get? key fs = some t) (ht : t.SoundOf expressions) :
    Yields (do Step.setField key (Probe.followed (← Step.place key) probe)) s (fun _ s' => At code "ForStatement" Plain s') E := by
  refine yields_bind.2 ((yields_place_of_get? hfocus hget).2 ?_)
  refine h.setField (Y := Plain) key (fun fs hof _ => hof.set_optional (by decide) hslot ?_ hkey) (fun _ _ => trivial) fun _ h => h
  exact (followed_sound ht hprobe).mono fun _ hmem => List.mem_singleton.1 hmem ▸ htypes

omit hvisit in
/-- A field of a node that holds a node or nothing, as it is found there. -/
theorem At.header {types : List String} (key : String) (h : At code type Plain s) (hslot : slotAt type key = some (.optional types)) :
    ((s.focus.field key).expand s.parts).isNode = false ∨ ∃ seen fs t, s.focus = .obj seen fs ∧ Fields.get? key fs = some t ∧
      (s.focus.field key).expand s.parts = t.bare ∧ t.SoundOf types := by
  obtain ⟨seen, fs, hfocus, hof, -⟩ := h.focus
  rw [h.tidy.expand, hfocus]
  change ((Fields.get? key fs).getD Tree.null).bare.isNode = false ∨ _
  cases hget : Fields.get? key fs with
  | none => exact .inl rfl
  | some t =>
    by_cases hnull : t = .null
    · subst hnull
      exact .inl rfl
    · exact .inr ⟨seen, fs, t, rfl, hget, congrArg (fun o => (o.getD Tree.null).bare) hget, hof.optional key hslot hget hnull⟩

omit hvisit in
theorem At.loopInit {line : Json} (h : At code "ForStatement" Plain s) (hline : line.isAtom = true) :
    Yields (Visit.loopInit line) s (fun _ s' => At code "ForStatement" Plain s') E := by
  unfold Visit.loopInit
  rw [yields_bind, yields_plainField]
  obtain hnot | ⟨seen, fs, t, hfocus, hget, hbare, ht⟩ := h.header "init" rfl
  · exact yields_ite (fun _ => yields_pure.2 h) fun hnode => absurd (by rw [hnot]; rfl) hnode
  refine yields_ite (fun _ => yields_pure.2 h) fun _ => ?_
  rw [hbare]
  obtain ⟨ttype, tseen, tfs, rfl, hmem, htof⟩ := ht.exists_tree
  rw [yields_bind, yields_lift, Tree.bare_obj]
  refine EndsIn.faults ((htof.node.hasType _).mono fun b hb => ?_) nofun
  refine yields_ite (fun htrue => ?_) fun hfalse => ?_
  · obtain rfl : ttype = "VariableDeclaration" := beq_iff_eq.1 (hb ▸ htrue)
    rw [yields_bind, yields_lift]
    refine EndsIn.faults ((declaredNames_text htof.node).mono fun names hnames => ?_) nofun
    refine yields_ite (fun _ => yields_pure.2 h) fun hsome => yields_bind.2 (yields_freshNumber.2 ?_)
    exact (h.of_focus (h.tidy.withCounter (s.counter + 1)) rfl).initDeclaration hline hnames (by simpa using hsome) hfocus hget
      (htof.soundOf tseen List.mem_cons_self).json.2
  have hexpression : (Tree.obj tseen tfs).SoundOf expressions := by
    rcases List.mem_cons.1 hmem with rfl | hmem
    · exact absurd hb (by simpa using hfalse)
    · exact htof.soundOf tseen hmem
  rw [yields_bind, yields_lift]
  refine EndsIn.faults ((writtenTargets_sound _ htof.node.sound).1.mono fun targets htargets => ?_) nofun
  extract_lets rest
  have hrest (probe : Json) (hprobe : probe.SoundOf expressions) :
      Yields (rest probe) s (fun _ s' => At code "ForStatement" Plain s') E :=
    h.followHeader "init" rfl (by decide) (by decide) hprobe hfocus hget hexpression
  split
  · refine yields_bind.2 ((yields_place_of_get? hfocus hget).2 (yields_bind.2 (h.conditionText hexpression fun text => ?_)))
    refine yields_bind.2 (yields_pure.2 (hrest _ ((record_sound hline (List.forall_mem_singleton.2 ?_)).mono (by decide))))
    exact (literal_sound rfl).mono (by decide)
  · exact yields_bind.2 (yields_pure.2 (hrest _ ((locals_sound hline htargets).mono (by decide))))

omit hvisit in
theorem At.loopUpdate {line : Json} (h : At code "ForStatement" Plain s) (hline : line.isAtom = true) :
    Yields (Visit.loopUpdate line) s (fun _ s' => At code "ForStatement" Plain s') E := by
  unfold Visit.loopUpdate
  rw [yields_bind, yields_plainField]
  obtain hnot | ⟨seen, fs, t, hfocus, hget, hbare, ht⟩ := h.header "update" rfl
  · exact yields_ite (fun _ => yields_pure.2 h) fun hnode => absurd (by rw [hnot]; rfl) hnode
  refine yields_ite (fun _ => yields_pure.2 h) fun _ => ?_
  rw [hbare, yields_bind, yields_lift]
  refine EndsIn.faults ((writtenTargets_sound _ ht.json.1).1.mono fun targets htargets => ?_) nofun
  split
  · exact yields_pure.2 h
  · exact h.followHeader "update" rfl (by decide) (by decide) ((locals_sound hline htargets).mono (by decide)) hfocus hget ht

omit hvisit in
theorem At.loopTest {line : Json} (h : At code "ForStatement" (BlockAt "body") s) (hline : line.isAtom = true) :
    Yields (Visit.loopTest line) s (fun _ s' => At code "ForStatement" Plain s') E := by
  unfold Visit.loopTest
  refine yields_bind.2 (h.child? "test" (yields_pure.2 h.plain) fun seen fs t hfocus hof hblock hget hnull => ?_)
  refine yields_ite (fun _ => ?_) fun _ => yields_pure.2 h.plain
  have htest : HoldsAt "test" expressions fs := ⟨t, hget, (hof.optional "test" rfl hget hnull).json.2⟩
  have hstart : At code "ForStatement" (fun fs => BlockAt "body" fs ∧ HoldsAt "test" expressions fs) s :=
    hof.at_focus h.tidy hfocus ⟨hblock, htest⟩
  have hlasting := (lasting_holdsAt "body" ["BlockStatement"]).and (lasting_holdsAt "test" expressions)
  refine (hstart.changeBody hlasting (fun _ => And.left) fun _ => id).bind fun _ s h => ?_
  obtain ⟨seen, fs, hfocus, hof, -, t, hget, hone⟩ := h.focus
  have ht : t.SoundOf expressions := ⟨(hof.field hget).whole, (hof.field hget).json, hone⟩
  refine yields_bind.2 ((yields_place_of_get? hfocus hget).2 (yields_bind.2 (h.conditionText ht fun text => ?_)))
  refine (h.changeBody hlasting (fun _ => And.left) fun ts hts => List.forall_mem_cons.2 ⟨?_, hts⟩).mono fun _ _ h => h.plain
  refine (Tree.soundOf_ofProbe (statement_sound hline ?_)).mono (by decide)
  exact List.forall_mem_cons.2 ⟨(literal_sound rfl).mono (by decide), List.forall_mem_singleton.2 ((literal_sound rfl).mono (by decide))⟩

theorem At.countedLoop (h : At code "ForStatement" Plain s) :
    Yields (Visit.countedLoop visit) s (fun _ s' => At code "ForStatement" Plain s') E := by
  unfold Visit.countedLoop
  refine yields_bind.2 (h.line fun line hline => ?_)
  refine (h.visitHeader hvisit "init" lasting_plain (by decide)).bind fun _ s h => ?_
  refine (h.visitHeader hvisit "test" lasting_plain (by decide)).bind fun _ s h => ?_
  refine (h.visitHeader hvisit "update" lasting_plain (by decide)).bind fun _ s h => ?_
  refine (h.loopInit hline).bind fun _ s h => (h.loopUpdate hline).bind fun _ s h => ?_
  have hbody := h.loopBody hvisit (by decide) rfl
  rw [yields_bind] at hbody
  exact yields_bind.2 (hbody.mono fun _ s hbody => hbody.bind fun _ s h => h.loopTest hline)

/-! ## All nodes -/

/-- The rule of any type. -/
theorem At.rule {parent : Option Tree} (h : At code type Plain s) (hparent : ∀ p, parent = some p → p.Sound ∧ p.isNode = true) :
    Yields (Visit.rule visit type parent) s (fun _ s' => At code type Plain s') E := by
  -- lists of statements and classes have rules, but there are no nodes of these types
  obtain ⟨_, _, _, hof, -⟩ := h.focus
  obtain ⟨slots, hshape⟩ := hof.node.sound.proper.exists_shape hof.node.type
  unfold Visit.rule
  split
  · exact h.block hvisit (by decide) rfl
  · exact h.block hvisit (by decide) rfl
  · exact h.switchCase hvisit
  · exact h.function hvisit (by decide) hparent
  · exact h.function hvisit (by decide) hparent
  · exact h.function hvisit (by decide) hparent
  · exact h.member hvisit rfl rfl
  · exact h.member hvisit rfl rfl
  · exact h.returnStatement hvisit
  · exact h.classDeclaration hvisit
  · exact h.classExpression hvisit hparent
  · exact h.declaration hvisit
  · exact h.assignment hvisit
  · exact h.update hvisit
  · exact h.call hvisit
  · exact h.branch hvisit
  · exact h.loop hvisit _ (by decide) rfl
  · exact h.loop hvisit _ (by decide) rfl
  · exact h.loop hvisit _ (by decide) rfl
  · exact h.loop hvisit _ (by decide) rfl
  · exact h.countedLoop hvisit
  · exact h.visitField hvisit "body" rfl lasting_plain (by decide)
  · exact yields_pure.2 h
  · cases hshape
  · cases hshape
  · exact h.visitFields hvisit

end Rules

/-- A careful visitor of the nodes below makes one of a node. -/
theorem Visitor.Careful.node (hvisit : visit.Careful code E) : Visitor.Careful code E (Visit.node visit) := by
  intro parent s htidy hsound hparent
  by_cases hskip : (!s.focus.isNode || s.focus.seen) = true
  · unfold Visit.node
    rw [yields_bind, yields_focus, if_pos hskip]
    exact yields_pure.2 ⟨htidy, .refl hsound⟩
  have hnode : s.focus.isNode = true := by
    rw [Bool.or_eq_true, not_or] at hskip
    simpa using hskip.1
  obtain ⟨type, seen, fs, hfocus, hof⟩ := hsound.exists_tree hnode
  have hseen : seen = false := by
    rw [Bool.or_eq_true, not_or, hfocus] at hskip
    simpa [Tree.seen] using hskip.2
  subst hseen
  refine yields_node_of_rule hfocus hof.get?_type ?_
  rw [hfocus]
  by_cases hliteral : type = "Literal"
  · -- the key of a property may be this literal, so the names of its fields count
    subst hliteral
    have hfields : Yields (Visit.fields visit) _ _ E := yields_visitFields hvisit rfl hof (htidy.focus (.obj true fs))
    exact hfields.mono fun _ s' h => ⟨h.tidy, h.becomes_of_names hof.type?⟩
  · refine (At.rule hvisit (hof.at_focus (htidy.focus _) rfl trivial) hparent).mono fun _ s' h => ⟨h.tidy, ?_⟩
    exact h.becomes hof.type? hliteral

/-- The visitor of a depth keeps sound values sound. -/
theorem careful_visitWith : ∀ n, (visitWith n).Careful code fun e => e = .tooDeep
  | 0 => fun _ _ _ _ _ => yields_throw.2 rfl
  | n + 1 => (careful_visitWith n).node

end Passes

end ScriptTrace
