import ScriptTrace.Proofs.FunctionRules
import ScriptTrace.Proofs.LoopRules
import ScriptTrace.Proofs.SoundPrinting

/-!
# Sound probes

The nodes that a pass puts into a sound tree are sound, given that the names in them are strings, the lines are
numbers, and the user code in them is sound.

* `NodeOf.build` : a node from its type and its fields;
* `Json.SoundOf` : a sound node of one of some types;
* `Target.Sound` : a target with a name and a sound expression;
* `localsStatement_sound`, `called_sound`, ... : records, one kind after the other;
* `result_sound`, `guard_sound`, ... : probes around user code.
-/

namespace ScriptTrace

open Grammar

/-! ## Nodes that are built -/

namespace NodeOf

open Json

variable {type : String} {slots : List (String × Slot)} {fields : Fields Json}

/-- A node is built from its type and fields of the grammar. -/
theorem build (keys : List String) (hshape : shape type = some slots) (hkeys : Fields.names fields = keys)
    (hnames : ("type" :: keys).Nodup)
    (hmissing : ∀ s ∈ slots ++ common, s.1 = "type" ∨ s.1 ∈ keys ∨ s.2.fits none = true)
    (hfields : ∀ f ∈ fields, f.2.Sound ∧ ∃ slot, Fields.get? f.1 (slots ++ common) = some slot ∧ slot.fits (some f.2) = true)
    (hconsistent : isConsistent type (("type", .str type) :: fields) = true)
    (hsupported : isSupported type (("type", .str type) :: fields) = true) :
    NodeOf type (("type", .str type) :: fields) := by
  subst hkeys
  obtain ⟨g, hg, rfl⟩ := mem_table_of_shape hshape
  have hunique {key : String} {slot : Slot} (h : (key, slot) ∈ g.2 ++ common) : Fields.get? key (g.2 ++ common) = some slot :=
    Fields.get?_of_mem (table_names g hg).1 h
  have htype : Fields.type? (("type", .str type) :: fields) = some type := rfl
  have hown : isNodeOf type (("type", .str type) :: fields) = true := by
    simp only [isNodeOf, hshape, Bool.and_eq_true, List.all_eq_true]
    refine ⟨⟨fun s hs => ?_, List.forall_mem_cons.2 ⟨?_, fun f hf => ?_⟩⟩, hconsistent⟩
    · by_cases hkey : s.1 = "type"
      · have htext : s.2 = .text := by
          have hslot := hunique (show (s.1, s.2) ∈ _ from hs)
          rw [hkey, hunique (List.mem_append_right _ (List.mem_cons_self : ("type", Slot.text) ∈ common))] at hslot
          exact (Option.some.inj hslot).symm
        rw [hkey, htext]
        rfl
      · rw [Fields.get?, if_neg (Ne.symm hkey)]
        cases hv : Fields.get? s.1 fields with
        | some v =>
          obtain ⟨-, slot, hslot, hfits⟩ := hfields _ (Fields.mem_of_get? hv)
          rw [hunique (show (s.1, s.2) ∈ _ from hs)] at hslot
          cases hslot
          exact hfits
        | none =>
          rcases hmissing s hs with h | h | h
          · exact absurd h hkey
          · exact absurd h (Fields.get?_eq_none.1 hv)
          · exact h
    · rw [slotOf, hunique (List.mem_append_right _ (List.mem_cons_self : ("type", Slot.text) ∈ common))]
      rfl
    · obtain ⟨-, slot, hslot, hfits⟩ := hfields f hf
      rw [slotOf, hslot]
      exact hfits
  refine ⟨everyObject_obj.2 ⟨?_, List.forall_mem_cons.2 ⟨rfl, fun f hf => (hfields f hf).1⟩⟩, htype⟩
  rw [isSound, isProper, htype, Fields.get?_of_type? htype, Bool.and_eq_true, Bool.and_eq_true]
  exact ⟨⟨decide_eq_true hnames, hown⟩, hsupported⟩

end NodeOf

namespace Json

/-- A sound node of one of some types. -/
def SoundOf (types : List String) (v : Json) : Prop := v.Sound ∧ v.isOneOf types = true

theorem SoundOf.mono {types types' : List String} {v : Json} (h : v.SoundOf types) (hsub : ∀ t ∈ types, t ∈ types') :
    v.SoundOf types' := by
  refine ⟨h.1, ?_⟩
  obtain ⟨fields, type, rfl, htype, hmem⟩ := isOneOf_iff.1 h.2
  exact isOneOf_iff.2 ⟨fields, type, rfl, htype, hsub type hmem⟩

theorem SoundOf.exists_node {types : List String} {v : Json} (h : v.SoundOf types) :
    ∃ type fields, v = .obj fields ∧ type ∈ types ∧ NodeOf type fields := h.1.exists_node h.2

theorem sound_of_atom {v : Json} (h : v.isAtom = true) : v.Sound := by
  cases v <;> first | rfl | cases h

theorem IsText.isAtom {v : Json} (h : v.IsText) : v.isAtom = true := by
  obtain ⟨s, rfl⟩ := h
  rfl

/-- A node in its field. -/
theorem SoundOf.inField {types : List String} {v : Json} (h : v.SoundOf types) :
    v.Sound ∧ ∃ slot, some (Slot.node types) = some slot ∧ slot.fits (some v) = true :=
  ⟨h.1, _, rfl, h.2⟩

/-- A node in a field that may hold nothing. -/
theorem SoundOf.inOptional {types : List String} {v : Json} (h : v.SoundOf types) :
    v.Sound ∧ ∃ slot, some (Slot.optional types) = some slot ∧ slot.fits (some v) = true := by
  obtain ⟨type, fields, rfl, -, -⟩ := h.exists_node
  exact ⟨h.1, _, rfl, h.2⟩

/-- A list of nodes in its field. -/
theorem list_inField {types : List String} {items : List Json} (h : ∀ v ∈ items, v.SoundOf types) :
    (Json.arr items).Sound ∧ ∃ slot, some (Slot.list types) = some slot ∧ slot.fits (some (.arr items)) = true :=
  ⟨everyObject_arr.2 fun v hv => (h v hv).1, _, rfl, List.all_eq_true.2 fun v hv => (h v hv).2⟩

end Json

theorem NodeOf.soundOf {type : String} {types : List String} {fields : Fields Json} (h : NodeOf type fields) (hmem : type ∈ types) :
    (Json.obj fields).SoundOf types :=
  ⟨h.sound, by rw [Json.isOneOf_obj h.type]; exact List.contains_iff_mem.2 hmem⟩

/-! ## Parts of probes -/

section Parts

variable {name value line : Json} {kind : String}

theorem nodeOf_ident (h : name.IsText) : NodeOf "Identifier" [("type", .str "Identifier"), ("name", name)] := by
  obtain ⟨s, rfl⟩ := h
  exact .build ["name"] rfl rfl (by decide) (by decide) (List.forall_mem_singleton.2 ⟨rfl, .text, rfl, rfl⟩) rfl rfl

theorem ident_sound (h : name.IsText) : (Json.ident name).SoundOf ["Identifier"] :=
  (nodeOf_ident h).soundOf List.mem_cons_self

theorem this_sound : Json.thisNode.SoundOf ["ThisExpression"] := ⟨rfl, rfl⟩

theorem voidZero_sound : Json.voidZero.SoundOf ["UnaryExpression"] := ⟨rfl, rfl⟩

theorem literal_sound (h : value.isAtom = true) : (Json.literal value).SoundOf ["Literal"] := by
  refine NodeOf.soundOf (.build ["value", "raw"] rfl rfl (by decide) (by decide) ?_ rfl rfl) List.mem_cons_self
  refine List.forall_mem_cons.2 ⟨⟨Json.sound_of_atom h, .optionalValue, rfl, ?_⟩, List.forall_mem_singleton.2 ⟨rfl, .optionalText, rfl, rfl⟩⟩
  cases value <;> first | rfl | cases h

theorem callOf_sound (name : String) {arguments : List Json} (h : ∀ v ∈ arguments, v.SoundOf elements) :
    (Json.callOf name arguments).SoundOf ["CallExpression"] := by
  refine NodeOf.soundOf (.build ["callee", "arguments"] rfl rfl (by decide) (by decide) ?_ rfl rfl) List.mem_cons_self
  refine List.forall_mem_cons.2 ⟨((ident_sound ⟨name, rfl⟩).mono (by decide)).inField, ?_⟩
  exact List.forall_mem_singleton.2 (Json.list_inField h)

theorem property_sound {key : Json} (hkey : key.isAtom = true) (hvalue : value.SoundOf expressions) :
    (Json.property key value).SoundOf ["Property"] := by
  refine NodeOf.soundOf (.build ["key", "computed", "value", "kind", "method", "shorthand"] rfl rfl (by decide) (by decide)
    ?_ rfl rfl) List.mem_cons_self
  simp only [List.forall_mem_cons]
  exact ⟨((literal_sound hkey).mono (by decide)).inField, ⟨rfl, .flag, rfl, rfl⟩,
    (hvalue.mono fun _ => List.mem_append_left _).inField, ⟨rfl, .text, rfl, rfl⟩, ⟨rfl, .flag, rfl, rfl⟩,
    ⟨rfl, .flag, rfl, rfl⟩, List.forall_mem_nil _⟩

theorem objectOf_sound {pairs : List (Json × Json)} (h : ∀ p ∈ pairs, p.1.isAtom = true ∧ p.2.SoundOf expressions) :
    (Json.objectOf pairs).SoundOf ["ObjectExpression"] := by
  refine NodeOf.soundOf (.build ["properties"] rfl rfl (by decide) (by decide) ?_ rfl rfl) List.mem_cons_self
  refine List.forall_mem_singleton.2 (Json.list_inField fun v hv => ?_)
  obtain ⟨p, hp, rfl⟩ := List.mem_map.1 hv
  exact (property_sound (h p hp).1 (h p hp).2).mono (by decide)

theorem expressionStatement_sound (h : value.SoundOf expressions) :
    (Json.expressionStatement value).SoundOf ["ExpressionStatement"] := by
  refine NodeOf.soundOf (.build ["expression"] rfl rfl (by decide) (by decide) ?_ rfl rfl) List.mem_cons_self
  exact List.forall_mem_singleton.2 h.inField

theorem snapshot_sound (h : value.SoundOf expressions) : (Probe.snapshot value).SoundOf ["CallExpression"] :=
  callOf_sound _ (List.forall_mem_singleton.2 (h.mono fun _ => List.mem_cons_of_mem _))

/-! ## Records -/

theorem record_sound {fields : List (String × Json)} (hline : line.isAtom = true) (h : ∀ f ∈ fields, f.2.SoundOf expressions) :
    (Probe.record kind line fields).SoundOf ["CallExpression"] := by
  refine callOf_sound _ (List.forall_mem_singleton.2 ((objectOf_sound ?_).mono (by decide)))
  refine List.forall_mem_cons.2 ⟨⟨rfl, (literal_sound rfl).mono (by decide)⟩, ?_⟩
  refine List.forall_mem_cons.2 ⟨⟨rfl, (literal_sound hline).mono (by decide)⟩, fun p hp => ?_⟩
  obtain ⟨f, hf, rfl⟩ := List.mem_map.1 hp
  exact ⟨rfl, h f hf⟩

theorem statement_sound {fields : List (String × Json)} (hline : line.isAtom = true) (h : ∀ f ∈ fields, f.2.SoundOf expressions) :
    (Probe.statement kind line fields).SoundOf ["ExpressionStatement"] :=
  expressionStatement_sound ((record_sound hline h).mono (by decide))

/-- A target with a name and a sound expression. -/
structure Target.Sound (t : Target) : Prop where
  key : t.key.IsText
  expression : t.expression.SoundOf expressions

theorem Target.named_sound (h : name.IsText) : (Target.named name).Sound := ⟨h, (ident_sound h).mono (by decide)⟩

theorem locals_sound {targets : List Target} (hline : line.isAtom = true) (h : ∀ t ∈ targets, t.Sound) :
    (Probe.locals kind line targets).SoundOf ["CallExpression"] := by
  refine record_sound hline (List.forall_mem_singleton.2 ((objectOf_sound fun p hp => ?_).mono (by decide)))
  obtain ⟨t, ht, rfl⟩ := List.mem_map.1 hp
  exact ⟨(h t ht).key.isAtom, (snapshot_sound (h t ht).expression).mono (by decide)⟩

theorem localsStatement_sound {targets : List Target} (hline : line.isAtom = true) (h : ∀ t ∈ targets, t.Sound) :
    (Probe.localsStatement kind line targets).SoundOf ["ExpressionStatement"] :=
  expressionStatement_sound ((locals_sound hline h).mono (by decide))

theorem called_sound {params : List Json} (hline : line.isAtom = true) (hname : name.IsText) (h : ∀ p ∈ params, p.IsText) :
    (Probe.called line name params).SoundOf ["ExpressionStatement"] := by
  refine statement_sound hline (List.forall_mem_cons.2 ⟨(literal_sound hname.isAtom).mono (by decide), List.forall_mem_singleton.2 ?_⟩)
  refine (objectOf_sound fun p hp => ?_).mono (by decide)
  obtain ⟨n, hn, rfl⟩ := List.mem_map.1 hp
  exact ⟨(h n hn).isAtom, (snapshot_sound ((ident_sound (h n hn)).mono (by decide))).mono (by decide)⟩

theorem returned_sound (hline : line.isAtom = true) : (Probe.returned line).SoundOf ["ExpressionStatement"] :=
  statement_sound hline (List.forall_mem_singleton.2 ((snapshot_sound (voidZero_sound.mono (by decide))).mono (by decide)))

theorem thrown_sound (hline : line.isAtom = true) (hname : name.IsText) : (Probe.thrown line name).SoundOf ["ExpressionStatement"] :=
  statement_sound hline (List.forall_mem_singleton.2 ((literal_sound hname.isAtom).mono (by decide)))

theorem declared_sound (hline : line.isAtom = true) (hname : name.IsText) : (Probe.declared line name).SoundOf ["ExpressionStatement"] :=
  statement_sound hline (List.forall_mem_singleton.2 ((literal_sound hname.isAtom).mono (by decide)))

/-! ## Probes around user code -/

open Rewriting

theorem nodeOf_block {statements : List Json} (h : ∀ v ∈ statements, v.SoundOf listed) :
    NodeOf "BlockStatement" [("type", .str "BlockStatement"), ("body", .arr statements)] :=
  .build ["body"] rfl rfl (by decide) (by decide) (List.forall_mem_singleton.2 (Json.list_inField h)) rfl rfl

theorem blockOf_sound {statements : List Json} (h : ∀ v ∈ statements, v.SoundOf listed) :
    (blockOf statements).SoundOf ["BlockStatement"] := (nodeOf_block h).soundOf List.mem_cons_self

theorem handler_sound (hline : line.isAtom = true) (hname : name.IsText) : (Probe.handler line name).SoundOf ["CatchClause"] := by
  have hcaught : (Json.ident (.str Probe.caughtName)).SoundOf ["Identifier"] := ident_sound ⟨_, rfl⟩
  have hrethrow : (Json.obj [("type", .str "ThrowStatement"), ("argument", .ident (.str Probe.caughtName))]).SoundOf
      ["ThrowStatement"] := by
    refine NodeOf.soundOf (.build ["argument"] rfl rfl (by decide) (by decide) ?_ rfl rfl) List.mem_cons_self
    exact List.forall_mem_singleton.2 (hcaught.mono (by decide)).inField
  refine NodeOf.soundOf (.build ["param", "body"] rfl rfl (by decide) (by decide) ?_ rfl rfl) List.mem_cons_self
  refine List.forall_mem_cons.2 ⟨⟨hcaught.1, _, rfl, rfl⟩, List.forall_mem_singleton.2 (blockOf_sound ?_).inField⟩
  simp only [List.forall_mem_cons]
  exact ⟨(thrown_sound hline hname).mono (by decide), hrethrow.mono (by decide), List.forall_mem_nil _⟩

theorem guarded_sound {statements : List Json} (hline : line.isAtom = true) (hname : name.IsText)
    (h : ∀ v ∈ statements, v.SoundOf listed) : (guarded statements line name).SoundOf ["TryStatement"] := by
  refine NodeOf.soundOf (.build ["block", "handler", "finalizer"] rfl rfl (by decide) (by decide) ?_ rfl rfl) List.mem_cons_self
  simp only [List.forall_mem_cons]
  exact ⟨(blockOf_sound h).inField, ⟨(handler_sound hline hname).1, _, rfl, rfl⟩, ⟨rfl, _, rfl, rfl⟩, List.forall_mem_nil _⟩

theorem wrapped_sound (name : String) {arguments : List Json} (h : ∀ v ∈ arguments, v.SoundOf elements) (hvalue : value.SoundOf elements) :
    (wrapped name arguments value).SoundOf ["CallExpression"] :=
  callOf_sound name (List.forall_mem_append.2 ⟨h, List.forall_mem_singleton.2 hvalue⟩)

theorem sequenceOf_sound {probe : Json} (h : value.SoundOf expressions) (hprobe : probe.SoundOf expressions) :
    (sequenceOf value probe).SoundOf ["SequenceExpression"] := by
  refine NodeOf.soundOf (.build ["expressions"] rfl rfl (by decide) (by decide) ?_ rfl rfl) List.mem_cons_self
  refine List.forall_mem_singleton.2 (Json.list_inField ?_)
  exact List.forall_mem_cons.2 ⟨h, List.forall_mem_singleton.2 hprobe⟩

/-- The elements of an array are those of a call. -/
theorem arrayOf_sound {items : List Json} (h : ∀ v ∈ items, v.SoundOf elements) :
    (arrayOf (.arr items)).SoundOf ["ArrayExpression"] := by
  refine NodeOf.soundOf (.build ["elements"] rfl rfl (by decide) (by decide) ?_ rfl rfl) List.mem_cons_self
  refine List.forall_mem_singleton.2 ⟨(Json.list_inField h).1, .gaps elements, rfl, List.all_eq_true.2 fun v hv => ?_⟩
  obtain ⟨type, fields, rfl, -, -⟩ := (h v hv).exists_node
  exact (h _ hv).2

/-- The statement that returns what an arrow function answers. -/
theorem returnOf_sound (h : value.SoundOf expressions) : (returnOf value).SoundOf ["ReturnStatement"] := by
  obtain ⟨type, fields, rfl, -, hof⟩ := h.exists_node
  have hloc : (Json.field "loc" (.obj fields)).Sound := by
    rw [Json.field, Json.get?]
    cases hv : Fields.get? "loc" fields with
    | none => rfl
    | some v => exact h.1.field hv
  refine NodeOf.soundOf (.build ["argument", "loc"] rfl rfl (by decide) (by decide) ?_ rfl rfl) List.mem_cons_self
  refine List.forall_mem_cons.2 ⟨h.inOptional, List.forall_mem_singleton.2 ⟨hloc, .position, rfl, ?_⟩⟩
  exact loc_fits h.1.proper hof.type

theorem initDeclarator_sound (n : Nat) {probes : List Json} (hprobes : probes ≠ []) (h : ∀ v ∈ probes, v.SoundOf expressions) :
    (Probe.initDeclarator n probes).SoundOf ["VariableDeclarator"] := by
  have hinit {init : Json} (hinit : init.SoundOf expressions) :
      (Json.obj [("type", .str "VariableDeclarator"), ("id", .ident (.str (Probe.initName n))), ("init", init)]).SoundOf
        ["VariableDeclarator"] := by
    refine NodeOf.soundOf (.build ["id", "init"] rfl rfl (by decide) (by decide) ?_ rfl rfl) List.mem_cons_self
    exact List.forall_mem_cons.2 ⟨((ident_sound ⟨_, rfl⟩).mono (by decide)).inField, List.forall_mem_singleton.2 hinit.inOptional⟩
  unfold Probe.initDeclarator
  extract_lets init
  refine hinit ?_
  unfold init
  split
  · next probe => exact h probe List.mem_cons_self
  · refine NodeOf.soundOf (.build ["expressions"] rfl rfl (by decide) (by decide) ?_ rfl rfl) (by decide)
    exact List.forall_mem_singleton.2 (Json.list_inField h)

end Parts

end ScriptTrace
