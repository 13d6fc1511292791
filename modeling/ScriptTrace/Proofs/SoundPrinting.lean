import ScriptTrace.Proofs.SoundNodes

/-!
# Printing sound values

Every statement of a sound value has a printed form as a statement, and everything that stands for an expression or a
pattern has one as an expression.

* `Printable.Sturdy` : a sound value with the printed forms it must have;
* `Printable.Is` : a node of one of some types, all values in which are sturdy;
* `LayerOf` : the layer of such a node, and how its fields are read;
* `every_sturdy` : the printed forms of a sound value are sturdy;
* `Json.Sound.printProgram`, `Json.Sound.printExpression` : the text of a sound program, and that of an expression.
-/

namespace ScriptTrace

open Grammar

namespace Printable

/-- Types of nodes that are printed as expressions. -/
def fragmentTypes : List String := "SpreadElement" :: (expressions ++ patterns)

/-- A sound value that has the printed forms it must have. -/
structure Sturdy (p : Printable) : Prop where
  plain : p.source = Annotated.plain p.content
  sound : p.source.Sound
  callInside : p.source.isNode = true → Succeeds p.note.callInside fun _ => True
  statement (place : Place) : p.source.isOneOf listed = true → Succeeds (p.note.statement place) fun _ => True
  fragment (place : Place) : p.source.isOneOf fragmentTypes = true →
    Succeeds (p.note.fragment place) fun f => ∃ s, f.text = .str s

/-- A node of one of some types, all values in which are sturdy. -/
structure Is (types : List String) (p : Printable) : Prop where
  every : p.Every Sturdy
  oneOf : p.source.isOneOf types = true

end Printable

/-- A string. -/
def Json.IsText (j : Json) : Prop := ∃ s, j = .str s

/-- The layer of a sound node of a type with its fields, all values in which are sturdy. -/
structure LayerOf (type : String) (fields : Fields Json) (l : Layer Printable) : Prop where
  every : l.Every Printable.Sturdy
  plain : Annotated.plain l = .obj fields
  node : NodeOf type fields

open Printable

/-! ## Reading layers -/

section Layers

variable {l : Layer Printable} {p : Printable} {type key : String} {types types' : List String} {place : Place}
  {fields : Fields Json}

/-- The type of a node, and its layer. -/
theorem Printable.Is.exists_layer (h : p.Is types) :
    ∃ type ∈ types, p.Is [type] ∧ ∃ fields, LayerOf type fields (layer p) := by
  obtain ⟨type, fields, hsource, hmem, hnode⟩ := h.every.here.sound.exists_node h.oneOf
  refine ⟨type, hmem, ⟨h.every, ?_⟩, fields, h.every.content, h.every.here.plain.symm.trans hsource, hnode⟩
  exact Json.isOneOf_iff.2 ⟨fields, type, hsource, hnode.type, List.mem_singleton_self type⟩

theorem Printable.Is.layer (h : p.Is [type]) : ∃ fields, LayerOf type fields (layer p) := by
  obtain ⟨_, hmem, -, fields, hl⟩ := h.exists_layer
  cases List.mem_singleton.1 hmem
  exact ⟨fields, hl⟩

theorem Printable.Is.mono (h : p.Is types) (hsub : ∀ t ∈ types, t ∈ types') : p.Is types' := by
  refine ⟨h.every, ?_⟩
  obtain ⟨fields, type, hsource, htype, hmem⟩ := Json.isOneOf_iff.1 h.oneOf
  exact Json.isOneOf_iff.2 ⟨fields, type, hsource, htype, hsub type hmem⟩

/-- A node of a type is one of some types if the type is one of them. -/
theorem Printable.Is.of_mem (h : p.Is [type]) (hmem : type ∈ types) : p.Is types :=
  h.mono fun _ ht => List.mem_singleton.1 ht ▸ hmem

theorem Printable.Is.isNode (h : p.Is types) : p.source.isNode = true := by
  obtain ⟨fields, type, hsource, htype, -⟩ := Json.isOneOf_iff.1 h.oneOf
  rw [hsource]
  exact Json.isNode_of_type? (j := .obj fields) htype

theorem succeeds_asText {j : Json} (h : j.IsText) : Succeeds (asText j) fun _ => True := by
  obtain ⟨s, rfl⟩ := h
  trivial

namespace Annotated.Every

theorem isNull_source (h : p.Every Sturdy) : (ScriptTrace.layer p.source).isNull = (ScriptTrace.layer p).isNull := by
  rw [show p.source = Annotated.plain (ScriptTrace.layer p) from h.here.plain]
  cases ScriptTrace.layer p <;> rfl

theorem truthy_source (h : p.Every Sturdy) : p.source.truthy = (ScriptTrace.layer p).truthy := by
  rw [show p.source = Annotated.plain (ScriptTrace.layer p) from h.here.plain, truthy_plain]

theorem layer_str {s : String} (h : p.Every Sturdy) (hsource : p.source = .str s) : ScriptTrace.layer p = .str s := by
  have hplain : p.source = Annotated.plain (ScriptTrace.layer p) := h.here.plain
  rw [hsource] at hplain
  cases hl : ScriptTrace.layer p with
  | str t => rw [hl] at hplain; cases hplain; rfl
  | _ => rw [hl] at hplain; cases hplain

theorem exists_arr {items : List Json} (h : p.Every Sturdy) (hsource : p.source = .arr items) :
    ∃ ps, ScriptTrace.layer p = .arr ps ∧ ∀ q ∈ ps, q.Every Sturdy ∧ q.source ∈ items := by
  have hplain : p.source = Annotated.plain (ScriptTrace.layer p) := h.here.plain
  have hitems := h.content.items
  rw [hsource] at hplain
  cases hl : ScriptTrace.layer p with
  | arr ps =>
    rw [hl] at hplain
    refine ⟨ps, rfl, fun q hq => ⟨hitems ps hl q hq, ?_⟩⟩
    rw [Json.arr.inj hplain]
    exact List.mem_map_of_mem hq
  | _ => rw [hl] at hplain; cases hplain

end Annotated.Every

namespace LayerOf

theorem exists_obj (h : LayerOf type fields l) : ∃ fs, l = .obj fs ∧ Fields.mapValues Annotated.source fs = fields := by
  have hplain := h.plain
  cases l with
  | obj fs => exact ⟨fs, rfl, Json.obj.inj hplain⟩
  | _ => cases hplain

/-- A field that is there. -/
theorem require_found {v : Json} (h : LayerOf type fields l) (hv : Fields.get? key fields = some v) :
    Succeeds (l.require key) fun p => p.Every Sturdy ∧ p.source = v := by
  obtain ⟨fs, rfl, rfl⟩ := h.exists_obj
  rw [Fields.get?_mapValues] at hv
  obtain ⟨p, hp, rfl⟩ := Option.map_eq_some_iff.1 hv
  rw [Layer.require_of_get? hp]
  exact ⟨h.every.fields fs rfl _ (Fields.mem_of_get? hp), rfl⟩

/-- A field that may be missing or null. -/
theorem optional_found (h : LayerOf type fields l) : Succeeds (l.optional key) fun o =>
    (∀ p, o = some p → p.Every Sturdy) ∧
      o.map Annotated.source = (Fields.get? key fields).filter fun v => !(ScriptTrace.layer v).isNull := by
  obtain ⟨fs, rfl, rfl⟩ := h.exists_obj
  change (∀ p, (Fields.get? key fs).filter _ = some p → _) ∧ _
  rw [Fields.get?_mapValues]
  cases hp : Fields.get? key fs with
  | none => exact ⟨nofun, rfl⟩
  | some p =>
    have hevery := h.every.fields fs rfl _ (Fields.mem_of_get? hp)
    refine ⟨fun q hq => ?_, ?_⟩
    · cases (Option.filter_eq_some_iff.1 hq).1
      exact hevery
    · rw [Option.map_some, Option.filter_some, Option.filter_some, hevery.isNull_source]
      split <;> rfl

/-- A field that holds a node. -/
theorem require (h : LayerOf type fields l) (hslot : slotAt type key = some (.node types)) : Succeeds (l.require key) (Is types) := by
  obtain ⟨v, hv, -, hone⟩ := h.node.node _ hslot
  exact (h.require_found hv).mono fun p ⟨hp, hsource⟩ => ⟨hp, hsource ▸ hone⟩

/-- A field that holds a node, or nothing. -/
theorem optional (h : LayerOf type fields l) (hslot : slotAt type key = some (.optional types)) :
    Succeeds (l.optional key) fun o => ∀ p, o = some p → p.Is types := by
  refine h.optional_found.mono fun o ⟨hevery, ho⟩ p hp => ?_
  rw [hp, Option.map_some] at ho
  obtain ⟨hv, hnull⟩ := Option.filter_eq_some_iff.1 ho.symm
  refine ⟨hevery p hp, ((h.node.optional _ hslot hv).resolve_left fun he => ?_).2⟩
  rw [he] at hnull
  cases hnull

/-- A field that is missing or null. -/
theorem optional_none (h : LayerOf type fields l) (hv : Fields.get? key fields = none) :
    Succeeds (l.optional key) fun o => o = none := by
  refine h.optional_found.mono fun o ⟨_, ho⟩ => ?_
  rw [hv] at ho
  exact Option.map_eq_none_iff.1 ho

/-- A field that holds a string, or nothing. -/
theorem optionalText (h : LayerOf type fields l) (hslot : slotAt type key = some .optionalText) :
    Succeeds (l.optional key) fun o => ∀ p, o = some p → Fields.get? key fields = some p.source ∧ p.source.IsText := by
  refine h.optional_found.mono fun o ⟨_, ho⟩ p hp => ?_
  rw [hp, Option.map_some] at ho
  obtain ⟨hv, hnull⟩ := Option.filter_eq_some_iff.1 ho.symm
  have hfits := h.node.fits hslot
  refine ⟨hv, ?_⟩
  rw [hv] at hfits
  cases hsource : p.source with
  | str s => exact ⟨s, rfl⟩
  | null => rw [hsource] at hnull; cases hnull
  | _ => rw [hsource] at hfits; cases hfits

/-- A list in a field. -/
theorem require_arr (h : LayerOf type fields l) {items : List Json} (hv : Fields.get? key fields = some (.arr items)) :
    Succeeds (l.require key) fun p => ∃ ps, ScriptTrace.layer p = .arr ps ∧ ∀ q ∈ ps, q.Every Sturdy ∧ q.source ∈ items :=
  (h.require_found hv).mono fun _ ⟨hp, hsource⟩ => hp.exists_arr hsource

theorem elementsOf_arr (h : LayerOf type fields l) {items : List Json} (hv : Fields.get? key fields = some (.arr items)) :
    Succeeds (l.elementsOf key) fun ps => ∀ q ∈ ps, q.Every Sturdy ∧ q.source ∈ items := by
  unfold Layer.elementsOf
  refine h.optional_found.bind fun o ⟨hevery, ho⟩ => ?_
  cases o with
  | none => exact nofun
  | some p =>
    rw [hv, Option.map_some] at ho
    obtain ⟨ps, hps, hall⟩ := (hevery p rfl).exists_arr (Option.some.inj (Option.filter_eq_some_iff.1 ho.symm).1).symm
    refine ends_ite (fun _ => ?_) fun _ => nofun
    rw [hps]
    exact hall

/-- The items of a list of nodes. -/
theorem items (h : LayerOf type fields l) (hslot : slotAt type key = some (.list types)) :
    Succeeds (l.require key) fun p => ∃ ps, ScriptTrace.layer p = .arr ps ∧ ∀ q ∈ ps, q.Is types := by
  obtain ⟨items, hv, hitems⟩ := h.node.list _ hslot
  exact (h.require_arr hv).mono fun p ⟨ps, hps, hall⟩ => ⟨ps, hps, fun q hq => ⟨(hall q hq).1, (hitems _ (hall q hq).2).2⟩⟩

theorem elementsOf (h : LayerOf type fields l) (hslot : slotAt type key = some (.list types)) :
    Succeeds (l.elementsOf key) fun ps => ∀ q ∈ ps, q.Is types := by
  obtain ⟨items, hv, hitems⟩ := h.node.list _ hslot
  exact (h.elementsOf_arr hv).mono fun ps hall q hq => ⟨(hall q hq).1, (hitems _ (hall q hq).2).2⟩

/-- The elements of a list with gaps. -/
theorem elementsOf_gaps (h : LayerOf type fields l) (hslot : slotAt type key = some (.gaps types)) :
    Succeeds (l.elementsOf key) fun ps => ∀ q ∈ ps, (ScriptTrace.layer q).isNull = false → q.Is types := by
  obtain ⟨items, hv, hitems⟩ := h.node.gaps _ hslot
  refine (h.elementsOf_arr hv).mono fun ps hall q hq hnull => ⟨(hall q hq).1, ?_⟩
  refine ((hitems _ (hall q hq).2).resolve_left fun hsource => ?_).2
  rw [← (hall q hq).1.isNull_source, hsource] at hnull
  cases hnull

/-- A field that holds a string. -/
theorem requireText (h : LayerOf type fields l) (hslot : slotAt type key = some .text) :
    Succeeds (l.require key) fun p => Fields.get? key fields = some p.source ∧ p.source.IsText := by
  obtain ⟨s, hv⟩ := h.node.text _ hslot
  exact (h.require_found hv).mono fun p ⟨_, hsource⟩ => ⟨hsource ▸ hv, s, hsource⟩

theorem text (h : LayerOf type fields l) (hslot : slotAt type key = some .text) : Succeeds (textOf key l) fun _ => True :=
  (h.requireText hslot).bind fun _ ⟨_, hs⟩ => succeeds_asText hs

/-- The name of an identifier. -/
theorem name_found (h : LayerOf type fields l) {v : Json} (hv : Fields.get? key fields = some v)
    (hone : v.isOneOf ["Identifier"] = true) : Succeeds (nameOf key l) fun _ => True := by
  refine (h.require_found hv).bind fun p ⟨hp, hsource⟩ => ?_
  obtain ⟨_, hl⟩ := Printable.Is.layer ⟨hp, hsource ▸ hone⟩
  exact hl.text rfl

theorem name (h : LayerOf type fields l) (hslot : slotAt type key = some (.node ["Identifier"])) :
    Succeeds (nameOf key l) fun _ => True := by
  obtain ⟨v, hv, -, hone⟩ := h.node.node _ hslot
  exact h.name_found hv hone

theorem flag (h : LayerOf type fields l) (key : String) :
    Succeeds (l.flag key) fun b => b = (Fields.get? key fields).any Json.truthy := by
  refine h.optional_found.bind fun o ⟨hevery, ho⟩ => ?_
  cases o with
  | none =>
    cases hv : Fields.get? key fields with
    | none => rfl
    | some v =>
      rw [hv, Option.map_none, eq_comm, Option.filter_some] at ho
      cases v <;> first | rfl | cases ho
  | some p =>
    rw [(Option.filter_eq_some_iff.1 ho.symm).1, Option.any_some, (hevery p rfl).truthy_source]
    rfl

theorem hasType (h : LayerOf type fields l) (t : String) : Succeeds (l.hasType t) fun b => b = (type == t) := by
  refine (h.require_found (Fields.get?_of_type? h.node.type)).bind fun p ⟨hp, hsource⟩ => ?_
  rw [hp.layer_str hsource]
  rfl

theorem hasTypeIn (h : LayerOf type fields l) (ts : List String) : Succeeds (l.hasTypeIn ts) fun b => b = ts.contains type := by
  refine (h.require_found (Fields.get?_of_type? h.node.type)).bind fun p ⟨hp, hsource⟩ => ?_
  rw [hp.layer_str hsource, ends_pure, List.contains_eq_any_beq]
  rfl

end LayerOf

end Layers

namespace Printable

/-! ## Parts of expressions -/

theorem fragment_of_expression : ∀ t ∈ expressions, t ∈ fragmentTypes :=
  fun _ h => List.mem_cons_of_mem _ (List.mem_append_left _ h)

theorem fragment_of_pattern : ∀ t ∈ patterns, t ∈ fragmentTypes :=
  fun _ h => List.mem_cons_of_mem _ (List.mem_append_right _ h)

theorem fragment_of_element : ∀ t ∈ elements, t ∈ fragmentTypes :=
  List.forall_mem_cons.2 ⟨List.mem_cons_self, fragment_of_expression⟩

theorem listed_of_statement : ∀ t ∈ statements, t ∈ listed := fun _ h => List.mem_cons_of_mem _ h

/-- Texts with commas between them. -/
theorem succeeds_joined {parts : List Json} (h : ∀ j ∈ parts, j.IsText) : Succeeds (joined parts) fun _ => True :=
  (ends_mapM fun j hj => succeeds_asText (h j hj)).bind fun _ _ => trivial

section Parts

variable {place : Place} {l : Layer Printable} {p : Printable} {type key : String} {types : List String} {fields : Fields Json}

theorem Is.expression (h : p.Is types) (hsub : ∀ t ∈ types, t ∈ fragmentTypes) (required : Precedence) :
    Succeeds (p.expression place required) Json.IsText := by
  refine (h.every.here.fragment place (h.mono hsub).oneOf).bind fun f hf => ends_ite (fun _ => ?_) fun _ => hf
  exact (succeeds_asText hf).bind fun s _ => ⟨_, rfl⟩

theorem Is.expressionText (h : p.Is types) (hsub : ∀ t ∈ types, t ∈ fragmentTypes) (required : Precedence) :
    Succeeds (p.expressionText place required) fun _ => True :=
  (h.expression hsub required).bind fun _ => succeeds_asText

theorem Is.statement (h : p.Is types) (hsub : ∀ t ∈ types, t ∈ listed) : Succeeds (p.statement place) fun _ => True :=
  h.every.here.statement place (h.mono hsub).oneOf

/-! ## Blocks, declarations, functions and classes -/

theorem succeeds_inBraces {ps : List Printable} (h : ∀ p ∈ ps, p.Is listed) : Succeeds (inBraces place ps) fun _ => True :=
  (ends_mapM (P := fun _ => True) fun p hp => ((h p hp).statement fun _ => id).bind fun _ _ => ends_pure.2 trivial).bind
    fun _ _ => trivial

theorem succeeds_block (h : LayerOf "BlockStatement" fields l) : Succeeds (block place l) fun _ => True := by
  obtain ⟨items, hv, hitems⟩ := h.node.list "body" rfl
  unfold block
  refine h.optional_found.bind fun o ⟨hevery, ho⟩ => ?_
  cases o with
  | none => trivial
  | some b =>
    refine ends_ite (fun _ => ?_) fun _ => trivial
    rw [hv, Option.map_some] at ho
    obtain ⟨ps, hps, hall⟩ := (hevery b rfl).exists_arr (Option.some.inj (Option.filter_eq_some_iff.1 ho.symm).1).symm
    rw [hps]
    exact succeeds_inBraces fun q hq => ⟨(hall q hq).1, (hitems _ (hall q hq).2).2⟩

theorem succeeds_nested (h : p.Is statements) : Succeeds (nested place p) fun _ => True := by
  obtain ⟨type, hmem, -, fields, hl⟩ := h.exists_layer
  unfold nested
  refine (hl.hasType _).bind fun b hb => ends_ite (fun htrue => ?_) fun _ => ?_
  · rw [hb, beq_iff_eq] at htrue
    exact (succeeds_block (htrue ▸ hl)).bind fun _ _ => trivial
  · exact (h.statement listed_of_statement).bind fun _ _ => trivial

theorem succeeds_declarator (h : p.Is ["VariableDeclarator"]) : Succeeds (declarator place p) Json.IsText := by
  obtain ⟨fields, hl⟩ := h.layer
  unfold declarator
  refine (hl.require rfl).bind fun id hid => (hid.expression fragment_of_pattern _).bind fun target htarget => ?_
  refine (hl.optional rfl).bind fun o ho => ?_
  cases o with
  | none => exact htarget
  | some value =>
    refine ((ho value rfl).expressionText fragment_of_expression _).bind fun _ _ => ?_
    exact (succeeds_asText htarget).bind fun _ _ => ⟨_, rfl⟩

theorem succeeds_declaration (h : LayerOf "VariableDeclaration" fields l) : Succeeds (declaration place l) fun _ => True := by
  unfold declaration
  refine (h.items rfl).bind fun list ⟨ps, hps, hall⟩ => ?_
  rw [hps]
  refine (ends_mapM fun p hp => succeeds_declarator (hall p hp)).bind fun parts hparts => ?_
  exact (h.text rfl).bind fun _ _ => (succeeds_joined hparts).bind fun _ _ => trivial

/-- The expressions of a list, with commas between them. -/
theorem succeeds_expressions {ps : List Printable} (h : ∀ p ∈ ps, p.Is types) (hsub : ∀ t ∈ types, t ∈ fragmentTypes) :
    Succeeds (ps.mapM (·.expression place .assign)) fun parts => ∀ j ∈ parts, j.IsText :=
  ends_mapM fun p hp => (h p hp).expression hsub _

theorem succeeds_params (h : LayerOf type fields l) (hslot : slotAt type "params" = some (.list patterns)) :
    Succeeds (params place l) fun _ => True :=
  (h.elementsOf hslot).bind fun _ hps => (succeeds_expressions hps fragment_of_pattern).bind fun _ hparts =>
    (succeeds_joined hparts).bind fun _ _ => trivial

theorem succeeds_body (h : LayerOf type fields l) (hslot : slotAt type "body" = some (.node ["BlockStatement"])) :
    Succeeds (body place l) fun _ => True :=
  (h.require hslot).bind fun _ hp => have ⟨_, hl⟩ := hp.layer; succeeds_block hl

theorem succeeds_function (h : LayerOf type fields l) (hshape : shape type = some (functionShape ["BlockStatement"])) :
    Succeeds (function place l) fun _ => True := by
  have hslot (key : String) : slotAt type key = Fields.get? key (functionShape ["BlockStatement"]) := by rw [slotAt, hshape]; rfl
  unfold function
  refine (h.flag "async").bind fun _ _ => (h.flag "generator").bind fun _ _ => ?_
  extract_lets star rest
  refine (h.optional (hslot "id")).bind fun o ho => ?_
  have hrest (name : String) : Succeeds (rest name) fun _ => True :=
    (succeeds_params h (hslot _)).bind fun _ _ => (succeeds_body h (hslot _)).bind fun _ _ => ends_pure.2 trivial
  cases o with
  | none => exact hrest ""
  | some id =>
    obtain ⟨_, hl⟩ := (ho id rfl).layer
    exact (hl.text rfl).bind fun _ _ => hrest _

theorem succeeds_propertyKey (h : LayerOf type fields l) (hslot : slotAt type "key" = some (.node expressions)) :
    Succeeds (propertyKey place l) Json.IsText := by
  unfold propertyKey
  refine (h.flag "computed").bind fun _ _ => ends_ite (fun _ => ?_) fun _ => ?_
  · exact (h.require hslot).bind fun _ hp => (hp.expressionText fragment_of_expression _).bind fun _ _ => ⟨_, rfl⟩
  · exact (h.require hslot).bind fun _ hp => hp.expression fragment_of_expression _

theorem succeeds_accessor? (h : LayerOf type fields l) :
    Succeeds (accessor? l) fun o => o.isSome = true → Joint.isMethod fields = true := by
  unfold accessor?
  refine h.optional_found.bind fun o ⟨_, ho⟩ => ?_
  have hkind (s : String) (hs : s = "get" ∨ s = "set") (hsource : o.map Annotated.source = some (.str s)) :
      Joint.isMethod fields = true := by
    rw [hsource] at ho
    rw [Joint.isMethod, (Option.filter_eq_some_iff.1 ho.symm).1]
    rcases hs with rfl | rfl <;> simp [Json.string?]
  split
  · exact fun _ => hkind "get" (.inl rfl) ‹_›
  · exact fun _ => hkind "set" (.inr rfl) ‹_›
  · exact fun hsome => absurd hsome Bool.false_ne_true

theorem succeeds_method {key : Json} (hkey : key.IsText) (h : LayerOf type fields l)
    (hvalue : Succeeds (l.require "value") (Is ["FunctionExpression"])) : Succeeds (method place l key) fun _ => True := by
  unfold method
  refine hvalue.bind fun p hp => ?_
  obtain ⟨fields, hl⟩ := hp.layer
  extract_lets value rest
  have hrest (before : String) : Succeeds (rest before) fun _ => True :=
    (succeeds_asText hkey).bind fun _ _ => (succeeds_params hl rfl).bind fun _ _ =>
      (succeeds_body hl rfl).bind fun _ _ => ends_pure.2 trivial
  refine (succeeds_accessor? h).bind fun kind _ => ?_
  cases kind with
  | some kind => exact hrest _
  | none => exact (hl.flag "async").bind fun _ _ => (hl.flag "generator").bind fun _ _ => hrest _

theorem succeeds_member (h : p.Is ["MethodDefinition"]) : Succeeds (member place p) fun _ => True := by
  obtain ⟨fields, hl⟩ := h.layer
  unfold member
  refine (hl.flag "static").bind fun _ _ => (succeeds_propertyKey hl rfl).bind fun key hkey => ?_
  exact (succeeds_method hkey hl (hl.require rfl)).bind fun _ _ => trivial

theorem succeeds_classText (h : LayerOf type fields l) (hshape : shape type = some classShape) :
    Succeeds (classText place l) fun _ => True := by
  have hslot (key : String) : slotAt type key = Fields.get? key classShape := by rw [slotAt, hshape]; rfl
  unfold classText
  extract_lets rest
  have hrest (name : String) : Succeeds (rest name) fun _ => True := by
    unfold rest
    extract_lets members
    have hmembers (base : String) : Succeeds (members base) fun _ => True := by
      refine (h.require (hslot "body")).bind fun b hb => ?_
      obtain ⟨_, hl⟩ := hb.layer
      refine (hl.elementsOf rfl).bind fun ps hps => ?_
      exact ends_ite (fun _ => trivial) fun _ => (ends_mapM (P := fun _ => True) fun p hp => succeeds_member (hps p hp)).bind
        fun _ _ => trivial
    refine (h.optional (hslot "superClass")).bind fun o ho => ?_
    cases o with
    | none => exact hmembers ""
    | some base => exact ((ho base rfl).expressionText fragment_of_expression _).bind fun _ _ => hmembers _
  refine (h.optional (hslot "id")).bind fun o ho => ?_
  cases o with
  | none => exact hrest ""
  | some id =>
    obtain ⟨_, hl⟩ := (ho id rfl).layer
    exact (hl.text rfl).bind fun _ _ => hrest _

end Parts

/-! ## Expressions -/

section Expressions

variable {place : Place} {l : Layer Printable} {p : Printable} {type key : String} {fields : Fields Json}

/-- The text under a key of an object, also of one that is no node. -/
theorem succeeds_textOf {v : Json} (h : p.Every Sturdy) (hv : p.source.get? key = some v) (htext : v.IsText) :
    Succeeds (textOf key (layer p)) fun _ => True := by
  have hplain : p.source = Annotated.plain (layer p) := h.here.plain
  rw [hplain] at hv
  cases hl : layer p with
  | obj fs =>
    rw [hl] at hv
    obtain ⟨q, hq, rfl⟩ := Option.map_eq_some_iff.1 ((Fields.get?_mapValues Annotated.source key fs).symm.trans hv)
    rw [textOf, Layer.require_of_get? hq]
    exact succeeds_asText htext
  | _ => rw [hl] at hv; cases hv

/-- The raw text of a template's part. -/
theorem succeeds_raw (h : p.Is ["TemplateElement"]) :
    Succeeds (do textOf "raw" (layer (← (layer p).require "value"))) fun _ => True := by
  obtain ⟨fields, hl⟩ := h.layer
  have hsupported : (Fields.get? "value" fields).any hasRaw = true := hl.node.supported
  obtain ⟨v, hv, hraw⟩ := (Option.any_eq_true _ _).1 hsupported
  obtain ⟨raw, hget, htext⟩ := (Option.any_eq_true _ _).1 (Bool.and_eq_true_iff.1 hraw).2
  refine (hl.require_found hv).bind fun q ⟨hq, hsource⟩ => succeeds_textOf hq (hsource ▸ hget) ?_
  cases raw with
  | str s => exact ⟨s, rfl⟩
  | _ => cases htext

theorem succeeds_templateParts {expressions : Layer Printable} {ps : List Printable} (hlayer : expressions = .arr ps)
    (h : ∀ p ∈ ps, p.Is Grammar.expressions) (quasis : List Printable) (i : Nat) (hq : ∀ p ∈ quasis, p.Is ["TemplateElement"]) :
    Succeeds (templateParts place expressions i quasis) fun _ => True := by
  induction quasis generalizing i with
  | nil => trivial
  | cons quasi quasis ih =>
    obtain ⟨hquasi, hquasis⟩ := List.forall_mem_cons.1 hq
    unfold templateParts
    have hraw := ends_bind.1 (succeeds_raw hquasi)
    refine EndsIn.bind (Q := fun value => Succeeds (textOf "raw" (layer value)) fun _ => True) hraw fun value hvalue => ?_
    refine hvalue.bind fun raw _ => ?_
    extract_lets rest
    have hrest (inner : String) : Succeeds (rest inner) fun _ => True :=
      (ih (i + 1) hquasis).bind fun _ _ => ends_pure.2 trivial
    rw [hlayer, show templateItem i (.arr ps) = Except.ok ps[i]? from rfl, ok_bind]
    cases he : ps[i]? with
    | none => exact hrest ""
    | some e => exact ((h e (List.mem_of_getElem? he)).expressionText fragment_of_expression _).bind fun _ _ => hrest _

theorem succeeds_template (h : LayerOf "TemplateLiteral" fields l) : Succeeds (template place l) fun _ => True := by
  obtain ⟨items, hv, hitems⟩ := h.node.list "expressions" rfl
  unfold template
  refine (h.elementsOf rfl).bind fun quasis hquasis => ?_
  refine h.optional_found.bind fun o ⟨hevery, ho⟩ => ?_
  extract_lets parts
  obtain ⟨ps, hparts, hps⟩ : ∃ ps, parts = .arr ps ∧ ∀ p ∈ ps, p.Is expressions := by
    unfold parts
    cases o with
    | none => exact ⟨[], rfl, nofun⟩
    | some e =>
      rw [hv, Option.map_some] at ho
      obtain ⟨ps, hps, hall⟩ := (hevery e rfl).exists_arr (Option.some.inj (Option.filter_eq_some_iff.1 ho.symm).1).symm
      dsimp only
      split
      · exact ⟨ps, hps, fun q hq => ⟨(hall q hq).1, (hitems _ (hall q hq).2).2⟩⟩
      · exact ⟨[], rfl, nofun⟩
  exact (succeeds_templateParts hparts hps quasis 0 hquasis).bind fun _ _ => trivial

theorem succeeds_isBareNumber (h : LayerOf type fields l) {text : Json} (htext : text.IsText) :
    Succeeds (isBareNumber l text) fun _ => True := by
  obtain ⟨s, rfl⟩ := htext
  unfold isBareNumber
  refine (h.hasType _).bind fun _ _ => ends_ite (fun _ => trivial) fun _ => ?_
  refine h.optional_found.bind fun o _ => ?_
  split <;> trivial

theorem succeeds_literal (h : LayerOf "Literal" fields l) : Succeeds (literal l) Json.IsText := by
  unfold literal
  refine (h.optionalText rfl).bind fun o ho => ?_
  cases o with
  | none => exact h.optional_found.bind fun _ _ => ⟨_, rfl⟩
  | some raw => exact (ho raw rfl).2

theorem succeeds_array {types : List String} (h : LayerOf type fields l) (hslot : slotAt type "elements" = some (.gaps types))
    (hsub : ∀ t ∈ types, t ∈ fragmentTypes) : Succeeds (array place l) fun _ => True := by
  unfold array
  refine (h.elementsOf_gaps hslot).bind fun ps hps => ?_
  refine (ends_mapM (P := Json.IsText) fun p hp => ?_).bind fun items hitems => ?_
  · exact ends_ite (fun _ => ⟨_, rfl⟩) fun hnull => (hps p hp (by simpa using hnull)).expression hsub _
  · refine (succeeds_joined hitems).bind fun _ _ => ?_
    split <;> trivial

theorem succeeds_objectMember (h : p.Is ["Property", "SpreadElement", "RestElement"]) :
    Succeeds (objectMember place p) Json.IsText := by
  obtain ⟨type, hmem, his, fields, hl⟩ := h.exists_layer
  unfold objectMember
  extract_lets l
  refine (hl.hasTypeIn _).bind fun b hb => ends_ite (fun htrue => ?_) fun hfalse => ?_
  · have hspread : type ∈ ["SpreadElement", "RestElement"] := by simpa [hb] using htrue
    refine (his.of_mem hspread).expression ?_ _
    rintro t ht
    rcases List.mem_cons.1 ht with rfl | ht
    · exact List.mem_cons_self
    · exact List.mem_cons_of_mem _ (List.mem_append_right _ (List.mem_singleton.1 ht ▸ by decide))
  obtain rfl : type = "Property" := by
    rcases List.mem_cons.1 hmem with rfl | hmem
    · rfl
    · exact absurd (by simpa [hb] using hmem) hfalse
  refine (succeeds_propertyKey hl rfl).bind fun key hkey => ?_
  refine (succeeds_accessor? hl).bind fun kind hkind => ?_
  refine (hl.flag "method").bind fun b hb => ends_ite (fun hor => ?_) fun _ => ?_
  · have hmethod : Joint.isMethod fields = true := by
      rcases Bool.or_eq_true_iff.1 hor with hsome | htrue
      · exact hkind hsome
      · rw [Joint.isMethod, ← hb, htrue, Bool.or_true]
    have hsupported : (!Joint.isMethod fields || (Fields.get? "value" fields).any (Json.isOneOf ["FunctionExpression"])) = true :=
      hl.node.supported
    rw [hmethod, Bool.not_true, Bool.false_or] at hsupported
    obtain ⟨v, hv, hone⟩ := (Option.any_eq_true _ _).1 hsupported
    refine (succeeds_method hkey hl ?_).bind fun _ _ => ⟨_, rfl⟩
    refine (hl.require_found hv).mono fun q hfound => ?_
    obtain ⟨hq, hsource⟩ := hfound
    exact ⟨hq, hsource ▸ hone⟩
  have hsub : ∀ t ∈ expressions ++ patterns, t ∈ fragmentTypes := fun _ => List.mem_cons_of_mem _
  refine (hl.flag "shorthand").bind fun _ _ => ends_ite (fun _ => ?_) fun _ => ?_
  · exact (hl.require rfl).bind fun _ hv => hv.expression hsub _
  · exact (succeeds_asText hkey).bind fun _ _ => (hl.require rfl).bind fun _ hv => (hv.expressionText hsub _).bind fun _ _ => ⟨_, rfl⟩

theorem succeeds_object {types : List String} (h : LayerOf type fields l) (hslot : slotAt type "properties" = some (.list types))
    (hsub : ∀ t ∈ types, t ∈ ["Property", "SpreadElement", "RestElement"]) : Succeeds (object place l) fun _ => True :=
  (h.elementsOf hslot).bind fun _ hps =>
    (ends_mapM (P := Json.IsText) fun p hp => succeeds_objectMember ((hps p hp).mono hsub)).bind fun _ hparts =>
      (succeeds_joined hparts).bind fun _ _ => trivial

/-! ### Operands -/

theorem succeeds_spread {types : List String} (h : LayerOf type fields l) (hslot : slotAt type "argument" = some (.node types))
    (hsub : ∀ t ∈ types, t ∈ fragmentTypes) : Succeeds (spread place l) fun _ => True :=
  (h.require hslot).bind fun _ hp => (hp.expressionText hsub _).bind fun _ _ => trivial

theorem succeeds_defaulted (h : LayerOf "AssignmentPattern" fields l) : Succeeds (defaulted place l) fun _ => True := by
  refine (h.require rfl).bind fun _ hleft => (hleft.expressionText fragment_of_pattern _).bind fun _ _ => ?_
  exact (h.require rfl).bind fun _ hright => (hright.expressionText fragment_of_expression _).bind fun _ _ => trivial

theorem succeeds_assignment (h : LayerOf "AssignmentExpression" fields l) : Succeeds (assignment place l) fun _ => True := by
  refine (h.require rfl).bind fun left hleft => ?_
  obtain ⟨_, _, _, _, hl⟩ := hleft.exists_layer
  refine (hl.hasTypeIn _).bind fun _ _ => (hleft.expressionText fragment_of_pattern _).bind fun _ _ => ?_
  refine (h.text rfl).bind fun _ _ => (h.require rfl).bind fun _ hright => ?_
  exact (hright.expressionText fragment_of_expression _).bind fun _ _ => trivial

theorem succeeds_sequence (h : LayerOf "SequenceExpression" fields l) : Succeeds (sequence place l) fun _ => True := by
  refine (h.items rfl).bind fun list ⟨ps, hps, hall⟩ => ?_
  rw [hps]
  exact (succeeds_expressions hall fragment_of_expression).bind fun parts hparts => succeeds_joined hparts

theorem succeeds_conditional (h : LayerOf "ConditionalExpression" fields l) : Succeeds (conditional place l) fun _ => True := by
  have hexpression := fragment_of_expression
  refine (h.require rfl).bind fun _ htest => (htest.expressionText hexpression _).bind fun _ _ => ?_
  refine (h.require rfl).bind fun _ hyes => (hyes.expressionText hexpression _).bind fun _ _ => ?_
  exact (h.require rfl).bind fun _ hno => (hno.expressionText hexpression _).bind fun _ _ => trivial

theorem succeeds_binary (h : LayerOf type fields l)
    (hshape : shape type = some [("operator", .text), ("left", .node expressions), ("right", .node expressions)])
    (hknown : (Fields.get? "operator" fields).any (fun o => (o.string?.bind Precedence.binary?).isSome) = true) :
    Succeeds (binary place l) fun f => f.text.IsText := by
  have hslot (key : String) : slotAt type key = Fields.get? key
      [("operator", .text), ("left", .node expressions), ("right", .node expressions)] := by rw [slotAt, hshape]; rfl
  unfold binary
  refine (h.requireText (hslot _)).bind fun p hfound => ?_
  obtain ⟨hget, s, hs⟩ := hfound
  extract_lets operator power
  have hprecedence : Succeeds (operatorPrecedence operator) fun _ => True := by
    rw [hget, Option.any_some, hs] at hknown
    obtain ⟨precedence, hp⟩ := Option.isSome_iff_exists.1 hknown
    rw [show operator = .str s from hs, operatorPrecedence, show Precedence.binary? s = some precedence from hp]
    trivial
  refine hprecedence.bind fun precedence _ => ?_
  refine (h.require (hslot _)).bind fun _ hleft => (hleft.expression fragment_of_expression _).bind fun left htext => ?_
  refine (h.require (hslot _)).bind fun _ hright => (hright.expression fragment_of_expression _).bind fun right htext' => ?_
  refine (succeeds_asText ⟨s, hs⟩).bind fun _ _ => (succeeds_asText htext).bind fun _ _ => (succeeds_asText htext').bind fun _ _ => ?_
  exact ends_ite (fun _ => ⟨_, rfl⟩) fun _ => ⟨_, rfl⟩

theorem succeeds_unary (h : LayerOf "UnaryExpression" fields l) : Succeeds (unary place l) fun _ => True := by
  unfold unary
  refine (h.requireText rfl).bind fun p ⟨_, s, hs⟩ => ?_
  refine (h.require rfl).bind fun _ hp => (hp.expression fragment_of_expression _).bind fun argument htext => ?_
  rw [hs]
  exact (succeeds_asText htext).bind fun _ _ => ends_ite (fun _ => trivial) fun _ => trivial

theorem succeeds_update (h : LayerOf "UpdateExpression" fields l) : Succeeds (update place l) fun f => f.text.IsText := by
  unfold update
  refine (h.require rfl).bind fun _ hp => (hp.expression fragment_of_expression _).bind fun argument htext => ?_
  refine (h.flag "prefix").bind fun _ _ => (h.requireText rfl).bind fun p ⟨_, hoperator⟩ => ?_
  refine (succeeds_asText hoperator).bind fun _ _ => (succeeds_asText htext).bind fun _ _ => ?_
  exact ends_ite (fun _ => ⟨_, rfl⟩) fun _ => ⟨_, rfl⟩

theorem succeeds_arrow (h : LayerOf "ArrowFunctionExpression" fields l) : Succeeds (arrow place l) fun _ => True := by
  unfold arrow
  refine (h.flag "async").bind fun async _ => (succeeds_params h rfl).bind fun params _ => (h.require rfl).bind fun body hbody => ?_
  obtain ⟨type, hmem, his, _, hl⟩ := hbody.exists_layer
  refine (hl.hasType _).bind fun b hb => ends_ite (fun htrue => ?_) fun hfalse => ?_
  · rw [hb, beq_iff_eq] at htrue
    exact (succeeds_block (htrue ▸ hl)).bind fun _ _ => trivial
  · have hexpression : type ∈ expressions := by
      rcases List.mem_cons.1 hmem with rfl | hmem
      · exact absurd hb hfalse
      · exact hmem
    refine ((his.of_mem hexpression).expression fragment_of_expression _).bind fun text htext => ?_
    obtain ⟨s, rfl⟩ := htext
    trivial

theorem succeeds_yield (h : LayerOf "YieldExpression" fields l) : Succeeds (yield place l) fun _ => True := by
  unfold yield
  refine (h.flag "delegate").bind fun _ _ => (h.optional rfl).bind fun o ho => ?_
  cases o with
  | none => trivial
  | some argument => exact ((ho argument rfl).expressionText fragment_of_expression _).bind fun _ _ => trivial

theorem succeeds_arguments (h : LayerOf type fields l) (hslot : slotAt type "arguments" = some (.list elements)) :
    Succeeds (arguments place l) fun _ => True :=
  (h.elementsOf hslot).bind fun _ hps => (succeeds_expressions hps fragment_of_element).bind fun _ hparts =>
    (succeeds_joined hparts).bind fun _ _ => ends_pure.2 trivial

theorem succeeds_call (h : LayerOf "CallExpression" fields l) : Succeeds (call place l) fun _ => True := by
  unfold call
  refine (h.require rfl).bind fun _ hp => (hp.expression fragment_of_expression _).bind fun callee htext => ?_
  exact (succeeds_arguments h rfl).bind fun _ _ => (succeeds_asText htext).bind fun _ _ => ends_pure.2 trivial

theorem succeeds_construct (h : LayerOf "NewExpression" fields l) : Succeeds (construct place l) fun _ => True := by
  unfold construct
  refine (h.require rfl).bind fun callee hp => ?_
  extract_lets rest
  have hrest (text : String) : Succeeds (rest text) fun _ => True := (succeeds_arguments h rfl).bind fun _ _ => ends_pure.2 trivial
  refine (hp.every.here.callInside hp.isNode).bind fun _ _ => ends_ite (fun _ => ?_) fun _ => ?_
  · exact (hp.expressionText fragment_of_expression _).bind fun _ _ => hrest _
  · exact (hp.expressionText fragment_of_expression _).bind fun _ _ => hrest _

theorem succeeds_memberAccess (h : LayerOf "MemberExpression" fields l) : Succeeds (memberAccess place l) fun _ => True := by
  unfold memberAccess
  refine (h.require rfl).bind fun object hp => (hp.expression fragment_of_expression _).bind fun text htext => ?_
  obtain ⟨_, _, _, _, hl⟩ := hp.exists_layer
  refine (succeeds_isBareNumber hl htext).bind fun bare _ => (succeeds_asText htext).bind fun _ _ => ?_
  extract_lets text
  refine (h.flag "computed").bind fun b hb => ends_ite (fun _ => ?_) fun hcomputed => ?_
  · exact (h.require rfl).bind fun _ hp => (hp.expressionText fragment_of_expression _).bind fun _ _ => trivial
  · have hconsistent : ((Fields.get? "computed" fields).any Json.truthy ||
        (Fields.get? "property" fields).any (Json.isOneOf ["Identifier"])) = true := h.node.consistent
    rw [← hb, eq_false_of_ne_true hcomputed, Bool.false_or] at hconsistent
    obtain ⟨v, hv, hone⟩ := (Option.any_eq_true _ _).1 hconsistent
    exact (h.name_found hv hone).bind fun _ _ => trivial

/-- The text and precedence of an expression node. -/
theorem succeeds_fragmentOf (h : LayerOf type fields l) (hmem : type ∈ fragmentTypes) :
    Succeeds (fragmentOf type place l) fun f => f.text.IsText := by
  have htext {act : Except Fault String} {precedence : Precedence} (hact : Succeeds act fun _ => True) :
      Succeeds (do return fragmentWith precedence (← act)) fun f => f.text.IsText := hact.bind fun _ _ => ⟨_, rfl⟩
  have hexpression := fragment_of_expression
  have hpattern := fragment_of_pattern
  unfold fragmentOf
  split
  · exact (h.requireText rfl).bind fun p hp => hp.2
  · exact ⟨_, rfl⟩
  · exact ⟨_, rfl⟩
  · exact (h.name rfl).bind fun _ _ => (h.name rfl).bind fun _ _ => ⟨_, rfl⟩
  · exact (succeeds_literal h).bind fun _ hraw => hraw
  · exact htext (succeeds_template h)
  · refine (h.require rfl).bind fun _ htag => (htag.expression hexpression _).bind fun tag htagText => ?_
    refine (h.require rfl).bind fun p hp => ?_
    obtain ⟨_, hl⟩ := hp.layer
    exact (succeeds_template hl).bind fun _ _ => (succeeds_asText htagText).bind fun _ _ => ⟨_, rfl⟩
  · exact htext (succeeds_array h rfl fragment_of_element)
  · exact htext (succeeds_array h rfl hpattern)
  · exact htext (succeeds_object h rfl (by decide))
  · exact htext (succeeds_object h rfl (by decide))
  · exact htext (succeeds_function h rfl)
  · exact htext (succeeds_classText h rfl)
  · exact htext (succeeds_arrow h)
  · exact htext (succeeds_spread h rfl hexpression)
  · exact htext (succeeds_spread h rfl hpattern)
  · exact htext (succeeds_defaulted h)
  · exact htext (succeeds_assignment h)
  · exact htext (succeeds_sequence h)
  · exact htext (succeeds_conditional h)
  · exact succeeds_binary h rfl h.node.supported
  · exact succeeds_binary h rfl h.node.supported
  · exact htext (succeeds_unary h)
  · exact (h.require rfl).bind fun _ hp => (hp.expressionText hexpression _).bind fun _ _ => ⟨_, rfl⟩
  · exact htext (succeeds_yield h)
  · exact succeeds_update h
  · exact htext (succeeds_call h)
  · exact htext (succeeds_construct h)
  · exact htext (succeeds_memberAccess h)
  · simp_all [fragmentTypes, expressions, patterns]

end Expressions

/-! ## Statements -/

section Statements

variable {place : Place} {l : Layer Printable} {p : Printable} {type key : String} {fields : Fields Json}

theorem succeeds_directive (h : LayerOf "ExpressionStatement" fields l) (content : Printable)
    (hdirective : (Fields.get? "directive" fields).any Json.truthy = true) : Succeeds (directive l content) fun _ => True := by
  have hconsistent : (!(Fields.get? "directive" fields).any Json.truthy ||
      (Fields.get? "expression" fields).any (Json.isOneOf ["Literal"])) = true := h.node.consistent
  rw [hdirective, Bool.not_true, Bool.false_or] at hconsistent
  obtain ⟨v, hv, hone⟩ := (Option.any_eq_true _ _).1 hconsistent
  unfold directive
  refine (h.require_found hv).bind fun e ⟨he, hsource⟩ => ?_
  obtain ⟨_, hl⟩ := Is.layer ⟨he, hsource ▸ hone⟩
  refine (hl.optionalText rfl).bind fun o ho => ?_
  cases o with
  | none => trivial
  | some raw => exact ends_ite (fun _ => (succeeds_asText (ho raw rfl).2).bind fun _ _ => trivial) fun _ => trivial

theorem succeeds_expressionStatement (h : LayerOf "ExpressionStatement" fields l) :
    Succeeds (expressionStatement place l) fun _ => True := by
  unfold expressionStatement
  refine h.optional_found.bind fun o ⟨hevery, ho⟩ => ?_
  split
  · next d hd =>
    obtain ⟨rfl, htrue⟩ := Option.filter_eq_some_iff.1 hd
    refine succeeds_directive h d ?_
    rw [(Option.filter_eq_some_iff.1 ho.symm).1, Option.any_some, (hevery d rfl).truthy_source]
    exact htrue
  · refine (h.require rfl).bind fun _ hp => (hp.expression fragment_of_expression _).bind fun text htext => ?_
    obtain ⟨s, rfl⟩ := htext
    trivial

theorem succeeds_jump (word : String) (h : LayerOf type fields l)
    (hslot : slotAt type "label" = some (.optional ["Identifier"])) : Succeeds (jump word l) fun _ => True := by
  unfold jump
  refine (h.optional hslot).bind fun o ho => ?_
  split
  · next label hlabel =>
    obtain ⟨rfl, -⟩ := Option.filter_eq_some_iff.1 hlabel
    obtain ⟨_, hl⟩ := (ho label rfl).layer
    exact (hl.text rfl).bind fun _ _ => trivial
  · trivial

theorem succeeds_branch (h : LayerOf "IfStatement" fields l) : Succeeds (branch place l) fun _ => True := by
  unfold branch
  refine (h.require rfl).bind fun yes hyes => (h.optional rfl).bind fun o ho => ?_
  obtain ⟨_, _, _, _, hl⟩ := hyes.exists_layer
  cases o with
  | none =>
    refine (h.require rfl).bind fun _ htest => (htest.expressionText fragment_of_expression _).bind fun _ _ => ?_
    exact (succeeds_nested hyes).bind fun _ _ => trivial
  | some no =>
    have hno := ho no rfl
    obtain ⟨_, _, _, _, hl'⟩ := hno.exists_layer
    refine (hl.hasType _).bind fun wrapped _ => ?_
    refine (h.require rfl).bind fun _ htest => (htest.expressionText fragment_of_expression _).bind fun test _ => ?_
    extract_lets rest
    have hrest (text : String) : Succeeds (rest text) fun _ => True := by
      refine (hl.hasType _).bind fun _ _ => ?_
      extract_lets gap
      refine (hl'.hasType _).bind fun _ _ => ends_ite (fun _ => ?_) fun _ => ?_
      · exact (hno.statement listed_of_statement).bind fun _ _ => trivial
      · exact (succeeds_nested hno).bind fun _ _ => trivial
    refine ends_ite (fun _ => (succeeds_inBraces ?_).bind fun _ _ => hrest _) fun _ => (succeeds_nested hyes).bind fun _ _ => hrest _
    exact List.forall_mem_singleton.2 (hyes.mono listed_of_statement)

theorem succeeds_loopInit (h : LayerOf "ForStatement" fields l) : Succeeds (loopInit place l) Json.IsText := by
  unfold loopInit
  refine (h.optional rfl).bind fun o ho => ?_
  cases o with
  | none => exact ⟨_, rfl⟩
  | some init =>
    obtain ⟨type, hmem, his, _, hl⟩ := (ho init rfl).exists_layer
    refine (hl.hasType _).bind fun b hb => ends_ite (fun htrue => ?_) fun hfalse => ?_
    · rw [hb, beq_iff_eq] at htrue
      exact (succeeds_declaration (htrue ▸ hl)).bind fun _ _ => ⟨_, rfl⟩
    · have hexpression : type ∈ expressions := by
        rcases List.mem_cons.1 hmem with rfl | hmem
        · exact absurd hb hfalse
        · exact hmem
      exact (his.of_mem hexpression).expression fragment_of_expression _

theorem succeeds_optionalExpression (h : LayerOf type fields l) (hslot : slotAt type key = some (.optional expressions)) :
    Succeeds (optionalExpression place key l) Json.IsText := by
  unfold optionalExpression
  refine (h.optional hslot).bind fun o ho => ?_
  cases o with
  | none => exact ⟨_, rfl⟩
  | some e => exact (ho e rfl).expression fragment_of_expression _

/-- The body of a loop. -/
theorem succeeds_loopBody {head : String} (h : LayerOf type fields l) (hslot : slotAt type "body" = some (.node statements)) :
    Succeeds (do return head ++ (← nested place (← l.require "body"))) fun _ => True :=
  (h.require hslot).bind fun _ hbody => (succeeds_nested hbody).bind fun _ _ => trivial

theorem succeeds_countedLoop (h : LayerOf "ForStatement" fields l) : Succeeds (countedLoop place l) fun _ => True := by
  unfold countedLoop
  refine (succeeds_loopInit h).bind fun init hinit => (succeeds_optionalExpression h rfl).bind fun test htest => ?_
  refine (succeeds_optionalExpression h rfl).bind fun update hupdate => ?_
  refine (succeeds_asText hinit).bind fun _ _ => (succeeds_asText htest).bind fun _ _ => (succeeds_asText hupdate).bind fun _ _ => ?_
  exact succeeds_loopBody h rfl

theorem succeeds_loopTarget (h : p.Is ("VariableDeclaration" :: patterns)) : Succeeds (loopTarget place p) fun _ => True := by
  obtain ⟨type, hmem, his, _, hl⟩ := h.exists_layer
  unfold loopTarget
  refine (hl.hasType _).bind fun b hb => ends_ite (fun htrue => ?_) fun hfalse => ?_
  · rw [hb, beq_iff_eq] at htrue
    exact succeeds_declaration (htrue ▸ hl)
  · have hpattern : type ∈ patterns := by
      rcases List.mem_cons.1 hmem with rfl | hmem
      · exact absurd hb hfalse
      · exact hmem
    exact (his.of_mem hpattern).expressionText fragment_of_pattern _

theorem succeeds_eachLoop (word : String) (required : Precedence) (h : LayerOf type fields l)
    (hshape : shape type = shape "ForInStatement") : Succeeds (eachLoop word required place l) fun _ => True := by
  have hslot (key : String) : slotAt type key = slotAt "ForInStatement" key := by rw [slotAt, hshape]; rfl
  refine (h.require (hslot _)).bind fun _ hleft => (succeeds_loopTarget hleft).bind fun _ _ => ?_
  refine (h.require (hslot _)).bind fun _ hright => (hright.expressionText fragment_of_expression _).bind fun _ _ => ?_
  exact succeeds_loopBody h (hslot _)

theorem succeeds_whileLoop (h : LayerOf "WhileStatement" fields l) : Succeeds (whileLoop place l) fun _ => True := by
  refine (h.require rfl).bind fun _ htest => (htest.expressionText fragment_of_expression _).bind fun _ _ => ?_
  exact succeeds_loopBody h rfl

theorem succeeds_doLoop (h : LayerOf "DoWhileStatement" fields l) : Succeeds (doLoop place l) fun _ => True := by
  refine (h.require rfl).bind fun body hbody => (succeeds_nested hbody).bind fun _ _ => ?_
  obtain ⟨_, _, _, _, hl⟩ := hbody.exists_layer
  refine (hl.hasType _).bind fun _ _ => ?_
  exact (h.require rfl).bind fun _ htest => (htest.expressionText fragment_of_expression _).bind fun _ _ => trivial

theorem succeeds_handler (h : LayerOf "CatchClause" fields l) : Succeeds (handler place l) fun _ => True := by
  unfold handler
  extract_lets rest
  have hrest (param : String) : Succeeds (rest param) fun _ => True := (succeeds_body h rfl).bind fun _ _ => ends_pure.2 trivial
  refine (h.optional rfl).bind fun o ho => ?_
  cases o with
  | none => exact hrest ""
  | some param => exact ((ho param rfl).expressionText fragment_of_pattern _).bind fun _ _ => hrest _

theorem succeeds_tryStatement (h : LayerOf "TryStatement" fields l) : Succeeds (tryStatement place l) fun _ => True := by
  unfold tryStatement
  refine (h.require rfl).bind fun guarded hguarded => ?_
  obtain ⟨_, hl⟩ := hguarded.layer
  refine (succeeds_block hl).bind fun _ _ => ?_
  extract_lets rest
  have hrest (caught : String) : Succeeds (rest caught) fun _ => True := by
    refine (h.optional rfl).bind fun o ho => ?_
    cases o with
    | none => trivial
    | some f =>
      obtain ⟨_, hl⟩ := (ho f rfl).layer
      exact (succeeds_block hl).bind fun _ _ => trivial
  refine (h.optional rfl).bind fun o ho => ?_
  cases o with
  | none => exact hrest ""
  | some c =>
    obtain ⟨_, hl⟩ := (ho c rfl).layer
    exact (succeeds_handler hl).bind fun _ _ => hrest _

theorem succeeds_switchCase (h : p.Is ["SwitchCase"]) : Succeeds (switchCase place p) fun _ => True := by
  obtain ⟨_, hl⟩ := h.layer
  unfold switchCase
  extract_lets rest
  have hrest (label : String) : Succeeds (rest label) fun _ => True := by
    refine (hl.elementsOf rfl).bind fun ps hps => ?_
    refine (ends_mapM (P := fun _ => True) fun p hp => ?_).bind fun _ _ => trivial
    exact ((hps p hp).statement fun _ => id).bind fun _ _ => trivial
  refine (hl.optional rfl).bind fun o ho => ?_
  cases o with
  | none => exact hrest _
  | some test => exact ((ho test rfl).expressionText fragment_of_expression _).bind fun _ _ => hrest _

theorem succeeds_switchStatement (h : LayerOf "SwitchStatement" fields l) : Succeeds (switchStatement place l) fun _ => True := by
  unfold switchStatement
  refine (h.require rfl).bind fun _ hp => (hp.expressionText fragment_of_expression _).bind fun _ _ => ?_
  refine (h.elementsOf rfl).bind fun ps hps => ?_
  exact (ends_mapM (P := fun _ => True) fun p hp => succeeds_switchCase (hps p hp)).bind fun _ _ => trivial

/-- The field that a chain of members goes on with. -/
theorem optional_truthy (h : LayerOf type fields l) (hslot : slotAt type key = some (.node expressions)) :
    Succeeds (l.optional key) fun o => ∃ p, o = some p ∧ p.Is expressions ∧ (layer p).truthy = true := by
  obtain ⟨v, hv, -, hone⟩ := h.node.node _ hslot
  obtain ⟨_, t, rfl, htype, -⟩ := Json.isOneOf_iff.1 hone
  obtain ⟨_, he, hnonempty⟩ := Json.exists_obj_of_type? (v := .obj _) htype
  refine h.optional_found.mono fun o ⟨hevery, ho⟩ => ?_
  rw [hv] at ho
  obtain ⟨p, rfl, hsource⟩ := Option.map_eq_some_iff.1 ho
  refine ⟨p, rfl, ⟨hevery p rfl, hsource ▸ hone⟩, ?_⟩
  rw [← (hevery p rfl).truthy_source, hsource, he, Json.truthy, hnonempty]
  rfl

/-- Whether a chain of members holds a call. -/
theorem succeeds_chainHasCall (h : LayerOf type fields l) : Succeeds (chainHasCall l) fun _ => True := by
  unfold chainHasCall
  refine ends_ite (fun _ => trivial) fun _ => (h.hasTypeIn _).bind fun b hb => ends_ite (fun _ => trivial) fun hchain => ?_
  refine (h.hasType _).bind fun b' hb' => ends_ite (fun _ => trivial) fun hcall => ?_
  rw [hb, Bool.not_eq_true, Bool.not_eq_false'] at hchain
  obtain rfl | rfl | rfl : type = "MemberExpression" ∨ type = "CallExpression" ∨ type = "TaggedTemplateExpression" := by
    simpa using hchain
  · refine (optional_truthy h rfl).bind fun o ⟨object, ho, hobject, htruthy⟩ => ?_
    rw [ho, Option.filter_some, if_pos htruthy]
    exact hobject.every.here.callInside hobject.isNode
  · exact absurd hb' hcall
  · have hnone : (Fields.get? "object" fields).isNone = true := h.node.supported
    refine (h.optional_none (Option.isNone_iff_eq_none.1 hnone)).bind fun o ho => ?_
    rw [ho]
    refine (optional_truthy h rfl).bind fun o ⟨tag, ho, htag, _⟩ => ?_
    rw [ho]
    exact htag.every.here.callInside htag.isNode

/-- The text of a statement node. -/
theorem succeeds_statementOf (h : LayerOf type fields l) (hmem : type ∈ listed) :
    Succeeds (statementOf type place l) fun _ => True := by
  have hexpression := fragment_of_expression
  unfold statementOf
  split
  · exact succeeds_block h
  · trivial
  · trivial
  · exact succeeds_expressionStatement h
  · exact (succeeds_declaration h).bind fun _ _ => trivial
  · exact succeeds_function h rfl
  · exact succeeds_classText h rfl
  · refine (h.optional rfl).bind fun o ho => ?_
    cases o with
    | none => trivial
    | some argument => exact ((ho argument rfl).expressionText hexpression _).bind fun _ _ => trivial
  · exact (h.require rfl).bind fun _ hp => (hp.expressionText hexpression _).bind fun _ _ => trivial
  · exact succeeds_jump _ h rfl
  · exact succeeds_jump _ h rfl
  · refine (h.name rfl).bind fun _ _ => (h.require rfl).bind fun _ hp => ?_
    exact (hp.statement listed_of_statement).bind fun _ _ => trivial
  · exact succeeds_branch h
  · exact succeeds_countedLoop h
  · exact succeeds_eachLoop _ _ h rfl
  · exact succeeds_eachLoop _ _ h rfl
  · exact succeeds_whileLoop h
  · exact succeeds_doLoop h
  · exact succeeds_tryStatement h
  · exact succeeds_switchStatement h
  · -- of the statements only a `with` statement has no printed form
    obtain rfl : type = "WithStatement" := by simp_all [listed, statements]
    cases h.node.supported

/-- The type under which a node is printed. -/
theorem succeeds_typeText (h : LayerOf type fields l) : Succeeds (textOf "type" l) fun t => t = type := by
  refine (h.require_found (Fields.get?_of_type? h.node.type)).bind fun p ⟨_, hsource⟩ => ?_
  rw [hsource]
  rfl

theorem forms_layer (h : LayerOf type fields l) :
    forms l = ⟨chainHasCall l, fun place => do statementOf (← textOf "type" l) place l,
      fun place => do fragmentOf (← textOf "type" l) place l⟩ := by
  obtain ⟨fs, rfl, -⟩ := h.exists_obj
  rfl

/-- The forms of a sound value are those it must have. -/
theorem sturdy_annotate {j : Json} (hj : j.Sound) (hevery : (j.annotate forms).content.Every Sturdy) :
    Sturdy (j.annotate forms) := by
  have hplain := plain_annotate forms j
  have hnote : (j.annotate forms).note = forms (j.annotate forms).content := by cases j <;> rfl
  have hsource := Json.source_annotate forms j
  refine ⟨hsource.trans hplain.symm, hsource.symm ▸ hj, fun hnode => ?_, fun place hone => ?_, fun place hone => ?_⟩
  · rw [hsource] at hnode
    cases j with
    | obj fields =>
      obtain ⟨type, htype⟩ := hj.proper.exists_type hnode
      have hl : LayerOf type fields _ := ⟨hevery, hplain, hj, htype⟩
      rw [hnote, forms_layer hl]
      exact succeeds_chainHasCall hl
    | _ => cases hnode
  · obtain ⟨type, fields, rfl, hmem, hnode⟩ := hj.exists_node (hsource ▸ hone)
    have hl : LayerOf type fields _ := ⟨hevery, hplain, hnode⟩
    rw [hnote, forms_layer hl]
    exact (succeeds_typeText hl).bind fun _ he => he ▸ succeeds_statementOf hl hmem
  · obtain ⟨type, fields, rfl, hmem, hnode⟩ := hj.exists_node (hsource ▸ hone)
    have hl : LayerOf type fields _ := ⟨hevery, hplain, hnode⟩
    rw [hnote, forms_layer hl]
    exact (succeeds_typeText hl).bind fun _ he => he ▸ succeeds_fragmentOf hl hmem

theorem every_sturdy {j : Json} (h : j.Sound) : (j.annotate forms).Every Sturdy := by
  refine .annotate (D := Json.Sound) ?_ ?_ (fun j hj hitems hfields => sturdy_annotate hj ⟨hitems, hfields⟩) j h
  · exact fun items hj x hx => hj.item hx
  · exact fun fields hj f hf => (Json.everyObject_obj.1 hj).2 f hf

end Statements

end Printable

namespace Json

open Printable

variable {j : Json} {types : List String}

theorem Sound.is (h : j.Sound) (hone : j.isOneOf types = true) : Is types (j.annotate forms) :=
  ⟨every_sturdy h, (source_annotate forms j).symm ▸ hone⟩

/-- A sound statement has a text. -/
theorem Sound.exists_statement (h : j.Sound) (hone : j.isOneOf listed = true) (place : ScriptTrace.Place) :
    ∃ text, Printable.statement place (j.annotate forms) = .ok text := by
  have hstatement : Succeeds (Printable.statement place (j.annotate forms)) fun _ => True := (h.is hone).statement fun _ => id
  obtain ⟨text, htext, -⟩ := hstatement.exists_ok
  exact ⟨text, htext⟩

/-- A sound expression has a text. -/
theorem Sound.exists_fragment (h : j.Sound) (hone : j.isOneOf expressions = true)
    (place : ScriptTrace.Place) : ∃ f, Printable.fragment place (j.annotate forms) = .ok f := by
  have hfragment := (h.is hone).every.here.fragment place ((h.is hone).mono fragment_of_expression).oneOf
  obtain ⟨f, hf, -⟩ := hfragment.exists_ok
  exact ⟨f, hf⟩

/-- The text of a sound program. -/
theorem Sound.printProgram (h : j.Sound) (htype : j.type? = some "Program") : Succeeds (printNode j) IsText := by
  have hprogram : j.isOneOf ["Program"] = true := by rw [isOneOf, htype]; rfl
  obtain ⟨_, hl⟩ := (h.is hprogram).layer
  unfold printNode
  extract_lets p
  refine (hl.require_found (Fields.get?_of_type? hl.node.type)).bind fun _ hfound => ?_
  rw [hfound.2]
  refine (hl.elementsOf rfl).bind fun ps hps => ?_
  exact (ends_mapM (P := fun _ => True) fun p hp => (hps p hp).statement fun _ => id).bind fun _ _ => ⟨_, rfl⟩

/-- The text of a sound expression. -/
theorem Sound.printExpression (h : j.Sound) (hone : j.isOneOf expressions = true) : Succeeds (printNode j) IsText := by
  have hword : ∀ type ∈ expressions, type ≠ "Program" ∧ (endsWith "Statement" type || endsWith "Declaration" type) = false := by
    decide
  obtain ⟨type, hmem, his, fields, hl⟩ := (h.is hone).exists_layer
  unfold printNode
  extract_lets p
  refine (hl.require_found (Fields.get?_of_type? hl.node.type)).bind fun _ hfound => ?_
  rw [hfound.2]
  split
  · next heq => exact absurd (Json.str.inj heq) (hword type hmem).1
  · next heq =>
    cases heq
    rw [(hword type hmem).2]
    exact (his.of_mem hmem).expression fragment_of_expression _
  · next hnot => exact absurd rfl (hnot type)

end Json

end ScriptTrace
