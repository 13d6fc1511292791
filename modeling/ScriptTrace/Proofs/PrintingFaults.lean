import ScriptTrace.Proofs.ReadingFaults

/-!
# Faults of printing

Printing a tree of any form ends with a text or with a fault, and the fault is never that of a tree that is too
deep. Where a tree has no misfits, a value is never asked for what it does not offer: then the fault is that a field
is missing or of the wrong kind, or that a type has no printed form.

* `Fault.Printing misfit` : the faults of printing; whether there are misfits decides on one of them;
* `Misfit` : the joints of a tree where a value of the wrong kind is only found out by what is asked of it;
* `Json.Jointed` : a value without misfits;
* `ends_printNode` : how printing a tree ends.
-/

namespace ScriptTrace

/-! ## Joints -/

/-- The faults of printing; with misfits, a value may be asked for what it does not offer. -/
def Fault.Printing (misfit : Prop) : Fault → Prop
  | .tooDeep => False
  | .unsupported => misfit
  | _ => True

namespace Joint

/-- An object, if there is a field at all. -/
def isObject : Option Json → Bool
  | none | some (.obj _) => true
  | _ => false

/-- A string, if there is a field at all. -/
def isText : Option Json → Bool
  | none | some (.str _) => true
  | _ => false

/-- Null, or what is asked of a field. -/
def orNull (p : Option Json → Bool) : Option Json → Bool
  | some .null => true
  | field => p field

/-- An object with an object as its body. -/
def hasBody : Option Json → Bool
  | none => true
  | some (.obj fields) => isObject (Fields.get? "body" fields)
  | _ => false

/-- A list of which every item is as asked; a string or an object that is not empty is none. -/
def isList (p : Json → Bool) : Option Json → Bool
  | some (.arr items) => items.all p
  | some (.str s) => s == ""
  | some (.obj fields) => fields.isEmpty
  | _ => true

/-- A getter, a setter or a method. -/
def isMethod (fields : Fields Json) : Bool :=
  (Fields.get? "kind" fields).any (fun kind => kind.string? == some "get" || kind.string? == some "set") ||
    (Fields.get? "method" fields).any Json.truthy

/-- The member of an object: the value of a method has a body. -/
def isMember : Json → Bool
  | .obj fields => !isMethod fields || hasBody (Fields.get? "value" fields)
  | _ => true

/-- The member of a class. -/
def isClassMember : Json → Bool
  | .obj fields => hasBody (Fields.get? "value" fields)
  | _ => false

/-- The body of a class. -/
def isClassBody : Option Json → Bool
  | none => true
  | some (.obj fields) => isList isClassMember (Fields.get? "body" fields)
  | _ => false

/-- The joints of a node: fields whose kind is not looked at before something is asked of them. -/
def holds (fields : Fields Json) : Bool :=
  let field (key : String) := Fields.get? key fields
  match Fields.type? fields with
  | some "Identifier" => isText (field "name")
  | some "Literal" => orNull isText (field "raw")
  | some "UnaryExpression" => isText (field "operator")
  | some "ExpressionStatement" => !(field "directive").any Json.truthy || isObject (field "expression")
  | some "FunctionDeclaration" | some "FunctionExpression" => isObject (field "body")
  | some "TaggedTemplateExpression" => isObject (field "quasi")
  | some "ObjectExpression" | some "ObjectPattern" => isList isMember (field "properties")
  | some "ClassDeclaration" | some "ClassExpression" => isClassBody (field "body")
  | some "TryStatement" =>
    isObject (field "block") && orNull hasBody (field "handler") && orNull isObject (field "finalizer")
  | some "SwitchStatement" => isList (fun case => isObject (some case)) (field "cases")
  | _ => true

end Joint

/-- A value in which every node has values of the right kinds at its joints. -/
def Json.Jointed (j : Json) : Prop := j.everyObject Joint.holds = true

instance (j : Json) : Decidable j.Jointed := inferInstanceAs (Decidable (_ = _))

/-! ## Forms -/

/-- How the forms of a value end. Without misfits, the text of an expression is a string. -/
structure Forms.Printing (misfit : Prop) (forms : Forms) : Prop where
  callInside : EndsIn forms.callInside (fun _ => True) (Fault.Printing misfit)
  statement (place : Place) : EndsIn (forms.statement place) (fun _ => True) (Fault.Printing misfit)
  fragment (place : Place) :
    EndsIn (forms.fragment place) (fun f => ¬ misfit → ∃ s, f.text = .str s) (Fault.Printing misfit)

/-- What is known of a value with its forms. -/
structure Printable.Fit (misfit : Prop) (p : Printable) : Prop where
  printing : p.note.Printing misfit
  plain : p.source = Annotated.plain p.content
  joined : ¬ misfit → ∀ fields, p.source = .obj fields → Joint.holds fields = true

namespace Printable

variable {misfit : Prop}

theorem fit_none (truthy : Bool) : (Forms.none truthy).Printing misfit where
  callInside := by cases truthy <;> trivial
  statement _ := trivial
  fragment _ := trivial

theorem every_fit_string (s : String) : (Layered.ofString s : Printable).Every (Fit misfit) :=
  .intro _ ⟨fit_none true, rfl, fun _ _ h => by cases h⟩ nofun nofun

/-! ## Reading layers -/

theorem truthy_plain (l : Layer Printable) : (Annotated.plain l).truthy = l.truthy := by
  cases l with
  | arr items => cases items <;> rfl
  | obj fields => cases fields <;> rfl
  | _ => rfl

section Layers

variable {l : Layer Printable} (h : l.Every (Fit misfit)) (hobj : ¬ misfit → ∃ fields, l = .obj fields)

include h

theorem ends_field (key : String) : EndsIn (l.require key)
    (fun p => p.Every (Fit misfit) ∧ ∃ fields, l = .obj fields ∧ Fields.get? key fields = some p) (Fault.Printing misfit) := by
  cases l with
  | obj fields =>
    rw [Layer.require]
    cases hp : Fields.get? key fields with
    | none => trivial
    | some p => exact ⟨h.fields fields rfl _ (Fields.mem_of_get? hp), fields, rfl, hp⟩
  | _ => trivial

theorem ends_type (type : String) : EndsIn (l.hasType type) (fun _ => ∃ fields, l = .obj fields) (Fault.Printing misfit) :=
  (ends_field h "type").bind fun _ ⟨_, fields, hl, _⟩ => ⟨fields, hl⟩

theorem ends_types (types : List String) :
    EndsIn (l.hasTypeIn types) (fun _ => ∃ fields, l = .obj fields) (Fault.Printing misfit) :=
  (ends_field h "type").bind fun _ ⟨_, fields, hl, _⟩ => ⟨fields, hl⟩

theorem ends_items : EndsIn l.elements (fun ps => ∀ p ∈ ps, p.Every (Fit misfit)) (Fault.Printing misfit) := by
  cases l with
  | arr items => exact h.items items rfl
  | obj fields =>
    intro p hp
    obtain ⟨f, -, rfl⟩ := List.mem_map.1 hp
    exact every_fit_string f.1
  | str s =>
    intro p hp
    obtain ⟨c, -, rfl⟩ := List.mem_map.1 hp
    exact every_fit_string _
  | _ => trivial

include hobj

theorem ends_optionalField (key : String) : EndsIn (l.optional key)
    (fun o => ∀ p, o = some p → p.Every (Fit misfit) ∧ p.source ≠ .null ∧
      ∃ fields, l = .obj fields ∧ Fields.get? key fields = some p) (Fault.Printing misfit) := by
  cases l with
  | obj fields =>
    intro p hp
    obtain ⟨hget, hnull⟩ := Option.filter_eq_some_iff.1 hp
    have hevery := h.fields fields rfl _ (Fields.mem_of_get? hget)
    refine ⟨hevery, fun hsource => ?_, fields, rfl, hget⟩
    have hplain : p.source = Annotated.plain (layer p) := hevery.here.plain
    rw [hsource] at hplain
    cases hl : layer p with
    | null => rw [hl] at hnull; cases hnull
    | _ => rw [hl] at hplain; cases hplain
  | _ => exact Classical.byContradiction fun hnot => by obtain ⟨_, he⟩ := hobj hnot; cases he

theorem ends_flagField (key : String) : EndsIn (l.flag key)
    (fun b => b = true → ∀ fields, l = .obj fields → (Fields.get? key fields).any (fun p => p.source.truthy) = true)
    (Fault.Printing misfit) := by
  refine (ends_optionalField h hobj key).bind fun o ho => ?_
  cases o with
  | none => exact nofun
  | some p =>
    rintro htrue fields rfl
    obtain ⟨hp, -, _, ⟨⟩, hget⟩ := ho p rfl
    have hplain : p.source = Annotated.plain (layer p) := hp.here.plain
    rwa [hget, Option.any_some, hplain, truthy_plain]

theorem ends_elementsOf (key : String) : EndsIn (l.elementsOf key)
    (fun ps => ∀ p ∈ ps, p.Every (Fit misfit) ∧ ∀ fields q, l = .obj fields →
      Joint.isList q ((Fields.get? key fields).map Annotated.source) = true → q p.source = true)
    (Fault.Printing misfit) := by
  refine (ends_optionalField h hobj key).bind fun o ho => ?_
  cases o with
  | none => exact nofun
  | some x =>
    obtain ⟨hx, -, fields, rfl, hget⟩ := ho x rfl
    refine ends_ite (fun htrue => ?_) fun _ => nofun
    have hplain : x.source = Annotated.plain (layer x) := hx.here.plain
    have hitems := ends_items hx.content
    -- of the values that have elements, the joints admit only lists
    cases hl : layer x with
    | arr items =>
      rw [hl] at hitems hplain
      intro p hp
      refine ⟨hitems p hp, ?_⟩
      rintro fields' q ⟨⟩ hq
      rw [hget, Option.map_some, hplain] at hq
      exact List.all_eq_true.1 hq _ (List.mem_map_of_mem hp)
    | str s =>
      rw [hl] at hitems hplain htrue
      intro p hp
      refine ⟨hitems p hp, ?_⟩
      rintro fields' q ⟨⟩ hq
      rw [hget, Option.map_some, hplain] at hq
      exact absurd htrue (by simpa [Layer.truthy, Annotated.plain, Joint.isList] using hq)
    | obj fs =>
      rw [hl] at hitems hplain htrue
      intro p hp
      refine ⟨hitems p hp, ?_⟩
      rintro fields' q ⟨⟩ hq
      rw [hget, Option.map_some, hplain] at hq
      exact absurd htrue (by simpa [Layer.truthy, Annotated.plain, Joint.isList] using hq)
    | _ => trivial

end Layers

/-- The layer of a value that stands for an object. -/
theorem exists_obj {p : Printable} {fields : Fields Json} (h : p.Every (Fit misfit)) (hp : p.source = .obj fields) :
    ∃ fs, layer p = .obj fs ∧ Fields.mapValues Annotated.source fs = fields := by
  have hplain : p.source = Annotated.plain (layer p) := h.here.plain
  rw [hp] at hplain
  cases hl : layer p with
  | obj fs =>
    rw [hl] at hplain
    exact ⟨fs, rfl, (Json.obj.inj hplain).symm⟩
  | _ => rw [hl] at hplain; cases hplain

/-- A field that is an object if it is there. -/
theorem exists_obj_of_isObject {p : Printable} (h : p.Every (Fit misfit)) (hp : Joint.isObject (some p.source) = true) :
    ∃ fields, layer p = .obj fields := by
  cases hs : p.source with
  | obj fields =>
    obtain ⟨fs, hl, -⟩ := exists_obj h hs
    exact ⟨fs, hl⟩
  | _ => rw [hs] at hp; cases hp

/-- An object with an object as its body. -/
theorem exists_obj_of_hasBody {p : Printable} (h : p.Every (Fit misfit)) (hp : Joint.hasBody (some p.source) = true) :
    ∃ fields, layer p = .obj fields ∧ Joint.isObject ((Fields.get? "body" fields).map Annotated.source) = true := by
  cases hs : p.source with
  | obj fields =>
    obtain ⟨fs, hl, rfl⟩ := exists_obj h hs
    rw [hs, Joint.hasBody, Fields.get?_mapValues] at hp
    exact ⟨fs, hl, hp⟩
  | _ => rw [hs] at hp; cases hp

/-- Without misfits, what holds of a node's field. -/
def Holds (misfit : Prop) (l : Layer Printable) (key : String) (q : Option Json → Bool) : Prop :=
  ¬ misfit → ∀ fields, l = .obj fields → q ((Fields.get? key fields).map Annotated.source) = true

theorem Holds.exists_obj {l : Layer Printable} {key : String} {p : Printable} (h : Holds misfit l key Joint.isObject)
    (hno : ¬ misfit) (hp : p.Every (Fit misfit) ∧ ∃ fields, l = .obj fields ∧ Fields.get? key fields = some p) :
    ∃ fields, layer p = .obj fields := by
  obtain ⟨hp, fields, hl, hget⟩ := hp
  refine exists_obj_of_isObject hp ?_
  have hobj := h hno fields hl
  rwa [hget] at hobj

/-- A field that is there and not null. -/
theorem Holds.of_orNull {l : Layer Printable} {key : String} {q : Option Json → Bool} {p : Printable}
    (h : Holds misfit l key (Joint.orNull q)) (hno : ¬ misfit) (hnull : p.source ≠ .null)
    (hp : ∃ fields, l = .obj fields ∧ Fields.get? key fields = some p) : q (some p.source) = true := by
  obtain ⟨fields, hl, hget⟩ := hp
  have hq := h hno fields hl
  rw [hget, Option.map_some] at hq
  cases hsource : p.source with
  | null => exact absurd hsource hnull
  | _ => rwa [hsource] at hq

/-! ## Parts of expressions -/

theorem ends_asText (j : Json) : EndsIn (asText j) (fun _ => True) (Fault.Printing misfit) := by
  cases j <;> trivial

theorem ends_joined (parts : List Json) : EndsIn (joined parts) (fun _ => True) (Fault.Printing misfit) :=
  (ends_mapM fun j _ => ends_asText j).bind fun _ _ => trivial

section Values

variable {place : Place} {p : Printable} (h : p.Every (Fit misfit))

include h

theorem ends_statement : EndsIn (p.statement place) (fun _ => True) (Fault.Printing misfit) := h.here.printing.statement place

theorem ends_callInside : EndsIn p.callInside (fun _ => True) (Fault.Printing misfit) := h.here.printing.callInside

theorem ends_expression (required : Precedence) :
    EndsIn (p.expression place required) (fun j => ¬ misfit → ∃ s, j = .str s) (Fault.Printing misfit) := by
  refine (h.here.printing.fragment place).bind fun f hf => ends_ite (fun _ => ?_) fun _ => hf
  exact (ends_asText f.text).bind fun s _ _ => ⟨_, rfl⟩

theorem ends_expressionText (required : Precedence) :
    EndsIn (p.expressionText place required) (fun _ => True) (Fault.Printing misfit) :=
  (ends_expression h required).bind fun j _ => ends_asText j

end Values

section Parts

variable {place : Place} {l : Layer Printable} (h : l.Every (Fit misfit))

include h

theorem ends_textOf (key : String) : EndsIn (textOf key l) (fun _ => True) (Fault.Printing misfit) :=
  (ends_field h key).bind fun p _ => ends_asText p.source

theorem ends_nameOf (key : String) : EndsIn (nameOf key l) (fun _ => True) (Fault.Printing misfit) :=
  (ends_field h key).bind fun _ hp => ends_textOf hp.1.content "name"

end Parts

/-! ## Blocks, declarations, functions and classes -/

section Parts

variable {place : Place} {l : Layer Printable} {p : Printable}

theorem ends_inBraces {ps : List Printable} (h : ∀ p ∈ ps, p.Every (Fit misfit)) :
    EndsIn (inBraces place ps) (fun _ => True) (Fault.Printing misfit) :=
  (ends_mapM (P := fun _ => True) fun p hp => (ends_statement (h p hp)).bind fun _ _ => ends_pure.2 trivial).bind fun _ _ => trivial

theorem ends_block (h : l.Every (Fit misfit)) (hobj : ¬ misfit → ∃ fields, l = .obj fields) :
    EndsIn (block place l) (fun _ => True) (Fault.Printing misfit) := by
  unfold block
  refine (ends_optionalField h hobj "body").bind fun o ho => ?_
  cases o with
  | none => trivial
  | some b =>
    refine ends_ite (fun _ => ?_) fun _ => trivial
    exact (ends_items (ho b rfl).1.content).bind fun _ hps => ends_inBraces hps

theorem ends_nested (h : p.Every (Fit misfit)) : EndsIn (nested place p) (fun _ => True) (Fault.Printing misfit) := by
  unfold nested
  refine (ends_type h.content _).bind fun _ hl => ends_ite (fun _ => ?_) fun _ => ?_
  · exact (ends_block h.content fun _ => hl).bind fun _ _ => trivial
  · exact (ends_statement h).bind fun _ _ => trivial

theorem ends_declarator (h : p.Every (Fit misfit)) : EndsIn (declarator place p) (fun _ => True) (Fault.Printing misfit) := by
  unfold declarator
  refine (ends_field h.content "id").bind fun id ⟨hid, fields, hl, _⟩ => (ends_expression hid _).bind fun target _ => ?_
  refine (ends_optionalField h.content (fun _ => ⟨fields, hl⟩) "init").bind fun o ho => ?_
  cases o with
  | none => trivial
  | some value => exact (ends_expressionText (ho value rfl).1 _).bind fun _ _ => (ends_asText target).bind fun _ _ => trivial

theorem ends_declaration (h : l.Every (Fit misfit)) :
    EndsIn (declaration place l) (fun _ => True) (Fault.Printing misfit) := by
  unfold declaration
  refine (ends_field h "declarations").bind fun list hlist => (ends_items hlist.1.content).bind fun ps hps => ?_
  refine (ends_mapM (P := fun _ => True) fun p hp => ends_declarator (hps p hp)).bind fun parts _ => ?_
  exact (ends_textOf h "kind").bind fun _ _ => (ends_joined parts).bind fun _ _ => trivial

theorem ends_body (h : l.Every (Fit misfit)) (hbody : Holds misfit l "body" Joint.isObject) :
    EndsIn (body place l) (fun _ => True) (Fault.Printing misfit) :=
  (ends_field h "body").bind fun _ hp => ends_block hp.1.content fun hno => hbody.exists_obj hno hp

section Object

variable (h : l.Every (Fit misfit)) (hobj : ¬ misfit → ∃ fields, l = .obj fields)

include h hobj

theorem ends_params : EndsIn (params place l) (fun _ => True) (Fault.Printing misfit) := by
  unfold params
  refine (ends_elementsOf h hobj "params").bind fun ps hps => ?_
  refine (ends_mapM (P := fun _ => True) fun p hp => (ends_expression (hps p hp).1 _).mono fun _ _ => trivial).bind fun parts _ => ?_
  exact (ends_joined parts).bind fun _ _ => trivial

theorem ends_function (hbody : Holds misfit l "body" Joint.isObject) :
    EndsIn (function place l) (fun _ => True) (Fault.Printing misfit) := by
  unfold function
  refine (ends_flagField h hobj "async").bind fun _ _ => (ends_flagField h hobj "generator").bind fun _ _ => ?_
  extract_lets star rest
  refine (ends_optionalField h hobj "id").bind fun o ho => ?_
  have hrest (name : String) : EndsIn (rest name) (fun _ => True) (Fault.Printing misfit) :=
    (ends_params h hobj).bind fun _ _ => (ends_body h hbody).bind fun _ _ => ends_pure.2 trivial
  cases o with
  | none => exact hrest ""
  | some id => exact (ends_textOf (ho id rfl).1.content "name").bind fun _ _ => hrest _

theorem ends_propertyKey : EndsIn (propertyKey place l) (fun _ => True) (Fault.Printing misfit) := by
  unfold propertyKey
  refine (ends_flagField h hobj "computed").bind fun _ _ => ends_ite (fun _ => ?_) fun _ => ?_
  · exact (ends_field h "key").bind fun _ hp => (ends_expressionText hp.1 _).bind fun _ _ => trivial
  · exact (ends_field h "key").bind fun _ hp => (ends_expression hp.1 _).mono fun _ _ => trivial

theorem ends_accessor? : EndsIn (accessor? l)
    (fun o => o.isSome = true → ∀ fields, l = .obj fields → Joint.isMethod (Fields.mapValues Annotated.source fields) = true)
    (Fault.Printing misfit) := by
  unfold accessor?
  refine (ends_optionalField h hobj "kind").bind fun o ho => ?_
  have hkind (s : String) (hs : s = "get" ∨ s = "set") (hsource : o.map Annotated.source = some (.str s)) :
      ∀ fields, l = .obj fields → Joint.isMethod (Fields.mapValues Annotated.source fields) = true := by
    rintro fields rfl
    obtain ⟨p, rfl, hp⟩ := Option.map_eq_some_iff.1 hsource
    obtain ⟨-, -, _, ⟨⟩, hget⟩ := ho p rfl
    rw [Joint.isMethod, Fields.get?_mapValues, hget, Option.map_some, hp]
    rcases hs with rfl | rfl <;> simp [Json.string?]
  split
  · exact fun _ => hkind "get" (.inl rfl) ‹_›
  · exact fun _ => hkind "set" (.inr rfl) ‹_›
  · exact fun hsome => absurd hsome Bool.false_ne_true

theorem ends_method (key : Json) (hvalue : Holds misfit l "value" Joint.hasBody) :
    EndsIn (method place l key) (fun _ => True) (Fault.Printing misfit) := by
  unfold method
  refine (ends_field h "value").bind fun p ⟨hp, fields, hl, hget⟩ => ?_
  have hbody (hno : ¬ misfit) : ∃ fs, layer p = .obj fs ∧ Joint.isObject ((Fields.get? "body" fs).map Annotated.source) = true := by
    have hhas := hvalue hno fields hl
    rw [hget, Option.map_some] at hhas
    exact exists_obj_of_hasBody hp hhas
  have hvobj (hno : ¬ misfit) : ∃ fs, layer p = .obj fs := have ⟨fs, hfs, _⟩ := hbody hno; ⟨fs, hfs⟩
  have hvbody : Holds misfit (layer p) "body" Joint.isObject := by
    rintro hno fs hfs
    obtain ⟨fs', hfs', hb⟩ := hbody hno
    cases hfs.symm.trans hfs'
    exact hb
  extract_lets value rest
  have hrest (before : String) : EndsIn (rest before) (fun _ => True) (Fault.Printing misfit) :=
    (ends_asText key).bind fun _ _ => (ends_params hp.content hvobj).bind fun _ _ =>
      (ends_body hp.content hvbody).bind fun _ _ => ends_pure.2 trivial
  refine (ends_accessor? h hobj).bind fun kind _ => ?_
  cases kind with
  | some kind => exact hrest _
  | none =>
    refine (ends_flagField hp.content hvobj "async").bind fun _ _ => ?_
    exact (ends_flagField hp.content hvobj "generator").bind fun _ _ => hrest _

end Object

theorem ends_member (h : p.Every (Fit misfit)) (hjoint : ¬ misfit → Joint.isClassMember p.source = true) :
    EndsIn (member place p) (fun _ => True) (Fault.Printing misfit) := by
  have hsome (hno : ¬ misfit) : ∃ fs, layer p = .obj fs ∧ Joint.hasBody ((Fields.get? "value" fs).map Annotated.source) = true := by
    have hj := hjoint hno
    cases hsource : p.source with
    | obj fields =>
      obtain ⟨fs, hfs, rfl⟩ := exists_obj h hsource
      rw [hsource, Joint.isClassMember, Fields.get?_mapValues] at hj
      exact ⟨fs, hfs, hj⟩
    | _ => rw [hsource] at hj; cases hj
  have hobj (hno : ¬ misfit) : ∃ fs, layer p = .obj fs := have ⟨fs, hfs, _⟩ := hsome hno; ⟨fs, hfs⟩
  have hvalue : Holds misfit (layer p) "value" Joint.hasBody := by
    rintro hno fs hfs
    obtain ⟨fs', hfs', hb⟩ := hsome hno
    cases hfs.symm.trans hfs'
    exact hb
  unfold member
  refine (ends_flagField h.content hobj "static").bind fun _ _ => ?_
  refine (ends_propertyKey h.content hobj).bind fun key _ => ?_
  exact (ends_method h.content hobj key hvalue).bind fun _ _ => trivial

theorem ends_classText (h : l.Every (Fit misfit)) (hobj : ¬ misfit → ∃ fields, l = .obj fields)
    (hbody : Holds misfit l "body" Joint.isClassBody) :
    EndsIn (classText place l) (fun _ => True) (Fault.Printing misfit) := by
  unfold classText
  extract_lets rest
  have hrest (name : String) : EndsIn (rest name) (fun _ => True) (Fault.Printing misfit) := by
    unfold rest
    extract_lets members
    have hmembers (base : String) : EndsIn (members base) (fun _ => True) (Fault.Printing misfit) := by
      refine (ends_field h "body").bind fun b ⟨hb, fields, hl, hget⟩ => ?_
      have hclass (hno : ¬ misfit) : ∃ fs, layer b = .obj fs ∧
          Joint.isList Joint.isClassMember ((Fields.get? "body" fs).map Annotated.source) = true := by
        have hj := hbody hno fields hl
        rw [hget, Option.map_some] at hj
        cases hsource : b.source with
        | obj bfields =>
          obtain ⟨fs, hfs, rfl⟩ := exists_obj hb hsource
          rw [hsource, Joint.isClassBody, Fields.get?_mapValues] at hj
          exact ⟨fs, hfs, hj⟩
        | _ => rw [hsource] at hj; cases hj
      refine (ends_elementsOf hb.content (fun hno => have ⟨fs, hfs, _⟩ := hclass hno; ⟨fs, hfs⟩) "body").bind fun ps hps => ?_
      refine ends_ite (fun _ => trivial) fun _ => (ends_mapM (P := fun _ => True) fun p hp => ?_).bind fun _ _ => trivial
      refine ends_member (hps p hp).1 fun hno => ?_
      obtain ⟨fs, hfs, hj⟩ := hclass hno
      exact (hps p hp).2 fs _ hfs hj
    refine (ends_optionalField h hobj "superClass").bind fun o ho => ?_
    cases o with
    | none => exact hmembers ""
    | some base => exact (ends_expressionText (ho base rfl).1 _).bind fun _ _ => hmembers _
  refine (ends_optionalField h hobj "id").bind fun o ho => ?_
  cases o with
  | none => exact hrest ""
  | some id => exact (ends_textOf (ho id rfl).1.content "name").bind fun _ _ => hrest _

end Parts

/-! ## Expressions -/

section Expressions

variable {place : Place} {l : Layer Printable} {p : Printable}

theorem ends_templateItem (i : Nat) (h : l.Every (Fit misfit)) :
    EndsIn (templateItem i l) (fun o => ∀ p, o = some p → p.Every (Fit misfit)) (Fault.Printing misfit) := by
  unfold templateItem
  split
  · exact ends_ite (fun _ => trivial) fun _ => nofun
  · refine (ends_items h).bind fun ps hps p hp => hps p ?_
    exact List.mem_of_getElem? hp

theorem ends_templateParts {expressions : Layer Printable} (h : expressions.Every (Fit misfit)) :
    ∀ (quasis : List Printable) (i : Nat), (∀ p ∈ quasis, p.Every (Fit misfit)) →
      EndsIn (templateParts place expressions i quasis) (fun _ => True) (Fault.Printing misfit)
  | [], _, _ => trivial
  | quasi :: quasis, i, hq => by
    obtain ⟨hquasi, hquasis⟩ := List.forall_mem_cons.1 hq
    unfold templateParts
    refine (ends_field hquasi.content "value").bind fun value hvalue => ?_
    refine (ends_textOf hvalue.1.content "raw").bind fun raw _ => ?_
    extract_lets rest
    have hrest (inner : String) : EndsIn (rest inner) (fun _ => True) (Fault.Printing misfit) :=
      (ends_templateParts h quasis (i + 1) hquasis).bind fun _ _ => ends_pure.2 trivial
    refine (ends_templateItem i h).bind fun o ho => ?_
    cases o with
    | none => exact hrest ""
    | some e => exact (ends_expressionText (ho e rfl) _).bind fun _ _ => hrest _

theorem ends_isBareNumber (h : l.Every (Fit misfit)) {text : Json} (htext : ¬ misfit → ∃ s, text = .str s) :
    EndsIn (isBareNumber l text) (fun _ => True) (Fault.Printing misfit) := by
  unfold isBareNumber
  refine (ends_type h _).bind fun _ hl => ends_ite (fun _ => trivial) fun _ => ?_
  refine (ends_optionalField h (fun _ => hl) "value").bind fun o _ => ?_
  split
  case h_3 => trivial
  all_goals
    cases text with
    | arr items => exact Classical.byContradiction fun hno => by obtain ⟨_, he⟩ := htext hno; cases he
    | _ => trivial

section Object

variable (h : l.Every (Fit misfit)) (hobj : ¬ misfit → ∃ fields, l = .obj fields)

include h hobj

theorem ends_literal (hraw : Holds misfit l "raw" (Joint.orNull Joint.isText)) :
    EndsIn (literal l) (fun j => ¬ misfit → ∃ s, j = .str s) (Fault.Printing misfit) := by
  unfold literal
  refine (ends_optionalField h hobj "raw").bind fun o ho => ?_
  cases o with
  | none => exact (ends_optionalField h hobj "value").bind fun _ _ _ => ⟨_, rfl⟩
  | some raw =>
    intro hno
    obtain ⟨-, hnull, hget⟩ := ho raw rfl
    have hj := hraw.of_orNull hno hnull hget
    cases hsource : raw.source with
    | str s => exact ⟨s, rfl⟩
    | _ => rw [hsource] at hj; cases hj

theorem ends_template : EndsIn (template place l) (fun _ => True) (Fault.Printing misfit) := by
  unfold template
  refine (ends_elementsOf h hobj "quasis").bind fun quasis hquasis => ?_
  refine (ends_optionalField h hobj "expressions").bind fun o ho => ?_
  extract_lets expressions
  have hexpressions : expressions.Every (Fit misfit) := by
    have hnone : (Layer.arr [] : Layer Printable).Every (Fit misfit) := ⟨by rintro _ ⟨⟩; nofun, nofun⟩
    unfold expressions
    cases o with
    | none => exact hnone
    | some e =>
      dsimp only
      split
      · exact (ho e rfl).1.content
      · exact hnone
  exact (ends_templateParts hexpressions quasis 0 fun p hp => (hquasis p hp).1).bind fun _ _ => trivial

theorem ends_array : EndsIn (array place l) (fun _ => True) (Fault.Printing misfit) := by
  unfold array
  refine (ends_elementsOf h hobj "elements").bind fun ps hps => ?_
  refine (ends_mapM (P := fun _ => True) fun p hp => ?_).bind fun items _ => ?_
  · exact ends_ite (fun _ => trivial) fun _ => (ends_expression (hps p hp).1 _).mono fun _ _ => trivial
  · refine (ends_joined items).bind fun _ _ => ?_
    split <;> trivial

omit h hobj in
theorem ends_objectMember (h : p.Every (Fit misfit)) (hjoint : ¬ misfit → Joint.isMember p.source = true) :
    EndsIn (objectMember place p) (fun _ => True) (Fault.Printing misfit) := by
  unfold objectMember
  extract_lets l
  refine (ends_types h.content _).bind fun _ hl => ends_ite (fun _ => ?_) fun _ => ?_
  · exact (ends_expression h _).mono fun _ _ => trivial
  obtain ⟨fs, hfs⟩ := hl
  have hobj (_ : ¬ misfit) : ∃ fields, layer p = .obj fields := ⟨fs, hfs⟩
  have hvalue (hmethod : ¬ misfit → Joint.isMethod (Fields.mapValues Annotated.source fs) = true) :
      Holds misfit (layer p) "value" Joint.hasBody := by
    rintro hno fs' hfs'
    cases hfs.symm.trans hfs'
    have hj := hjoint hno
    have hplain : p.source = Annotated.plain (layer p) := h.here.plain
    rw [hplain, hfs] at hj
    have hj' : (!Joint.isMethod (Fields.mapValues Annotated.source fs) ||
      Joint.hasBody (Fields.get? "value" (Fields.mapValues Annotated.source fs))) = true := hj
    rwa [hmethod hno, Bool.not_true, Bool.false_or, Fields.get?_mapValues] at hj'
  refine (ends_propertyKey h.content hobj).bind fun key _ => ?_
  refine (ends_accessor? h.content hobj).bind fun kind hkind => ?_
  refine (ends_flagField h.content hobj "method").bind fun b hb => ends_ite (fun hor => ?_) fun _ => ?_
  · refine (ends_method h.content hobj key (hvalue fun _ => ?_)).bind fun _ _ => trivial
    rcases Bool.or_eq_true_iff.1 hor with hsome | htrue
    · exact hkind hsome fs hfs
    · rw [Joint.isMethod, Fields.get?_mapValues, Fields.get?_mapValues, Option.any_map, Option.any_map]
      exact Bool.or_eq_true_iff.2 (.inr (hb htrue fs hfs))
  refine (ends_flagField h.content hobj "shorthand").bind fun _ _ => ends_ite (fun _ => ?_) fun _ => ?_
  · exact (ends_field h.content "value").bind fun _ hv => (ends_expression hv.1 _).mono fun _ _ => trivial
  · refine (ends_asText key).bind fun _ _ => (ends_field h.content "value").bind fun _ hv => ?_
    exact (ends_expressionText hv.1 _).bind fun _ _ => trivial

theorem ends_object (hmembers : Holds misfit l "properties" (Joint.isList Joint.isMember)) :
    EndsIn (object place l) (fun _ => True) (Fault.Printing misfit) := by
  unfold object
  refine (ends_elementsOf h hobj "properties").bind fun ps hps => ?_
  refine (ends_mapM (P := fun _ => True) fun p hp => ends_objectMember (hps p hp).1 fun hno => ?_).bind fun parts _ => ?_
  · obtain ⟨fields, hl⟩ := hobj hno
    exact (hps p hp).2 fields _ hl (hmembers hno fields hl)
  · exact (ends_joined parts).bind fun _ _ => trivial

end Object

/-! ### Operands -/

section Operands

variable (h : l.Every (Fit misfit))

include h

theorem ends_spread : EndsIn (spread place l) (fun _ => True) (Fault.Printing misfit) :=
  (ends_field h "argument").bind fun _ hp => (ends_expressionText hp.1 _).bind fun _ _ => trivial

theorem ends_defaulted : EndsIn (defaulted place l) (fun _ => True) (Fault.Printing misfit) := by
  refine (ends_field h "left").bind fun _ hleft => (ends_expressionText hleft.1 _).bind fun _ _ => ?_
  exact (ends_field h "right").bind fun _ hright => (ends_expressionText hright.1 _).bind fun _ _ => trivial

theorem ends_assignment : EndsIn (assignment place l) (fun _ => True) (Fault.Printing misfit) := by
  refine (ends_field h "left").bind fun _ hleft => (ends_types hleft.1.content _).bind fun _ _ => ?_
  refine (ends_expressionText hleft.1 _).bind fun _ _ => (ends_textOf h "operator").bind fun _ _ => ?_
  exact (ends_field h "right").bind fun _ hright => (ends_expressionText hright.1 _).bind fun _ _ => trivial

theorem ends_sequence : EndsIn (sequence place l) (fun _ => True) (Fault.Printing misfit) := by
  refine (ends_field h "expressions").bind fun list hlist => (ends_items hlist.1.content).bind fun ps hps => ?_
  refine (ends_mapM (P := fun _ => True) fun p hp => ?_).bind fun parts _ => ends_joined parts
  exact (ends_expression (hps p hp) _).mono fun _ _ => trivial

theorem ends_conditional : EndsIn (conditional place l) (fun _ => True) (Fault.Printing misfit) := by
  refine (ends_field h "test").bind fun _ htest => (ends_expressionText htest.1 _).bind fun _ _ => ?_
  refine (ends_field h "consequent").bind fun _ hyes => (ends_expressionText hyes.1 _).bind fun _ _ => ?_
  exact (ends_field h "alternate").bind fun _ hno => (ends_expressionText hno.1 _).bind fun _ _ => trivial

omit h in
theorem ends_operatorPrecedence (operator : Json) :
    EndsIn (operatorPrecedence operator) (fun _ => True) (Fault.Printing misfit) := by
  unfold operatorPrecedence
  split
  · trivial
  · trivial
  · split <;> trivial
  · trivial

theorem ends_binary : EndsIn (binary place l) (fun f => ∃ s, f.text = .str s) (Fault.Printing misfit) := by
  unfold binary
  refine (ends_field h "operator").bind fun p _ => ?_
  extract_lets operator power
  refine (ends_operatorPrecedence _).bind fun precedence _ => ?_
  refine (ends_field h "left").bind fun _ hleft => (ends_expression hleft.1 _).bind fun left _ => ?_
  refine (ends_field h "right").bind fun _ hright => (ends_expression hright.1 _).bind fun right _ => ?_
  refine (ends_asText _).bind fun _ _ => (ends_asText left).bind fun _ _ => (ends_asText right).bind fun _ _ => ?_
  exact ends_ite (fun _ => ⟨_, rfl⟩) fun _ => ⟨_, rfl⟩

theorem ends_unary (hoperator : Holds misfit l "operator" Joint.isText) :
    EndsIn (unary place l) (fun _ => True) (Fault.Printing misfit) := by
  unfold unary
  refine (ends_field h "operator").bind fun p ⟨_, fields, hl, hget⟩ => ?_
  extract_lets operator
  refine (ends_field h "argument").bind fun _ hp => (ends_expression hp.1 _).bind fun argument _ => ?_
  cases hsource : operator with
  | str sign => exact (ends_asText argument).bind fun _ _ => ends_ite (fun _ => trivial) fun _ => trivial
  | _ =>
    refine Classical.byContradiction fun hmisfit => ?_
    have hj := hoperator hmisfit fields hl
    rw [hget, Option.map_some, show p.source = _ from hsource] at hj
    cases hj

theorem ends_update : EndsIn (update place l) (fun f => ∃ s, f.text = .str s) (Fault.Printing misfit) := by
  unfold update
  refine (ends_field h "argument").bind fun _ ⟨hp, fields, hl, _⟩ => (ends_expression hp _).bind fun argument _ => ?_
  refine (ends_flagField h (fun _ => ⟨fields, hl⟩) "prefix").bind fun _ _ => (ends_field h "operator").bind fun p _ => ?_
  refine (ends_asText p.source).bind fun _ _ => (ends_asText argument).bind fun _ _ => ?_
  exact ends_ite (fun _ => ⟨_, rfl⟩) fun _ => ⟨_, rfl⟩

variable (hobj : ¬ misfit → ∃ fields, l = .obj fields)

include hobj

theorem ends_arrow : EndsIn (arrow place l) (fun _ => True) (Fault.Printing misfit) := by
  unfold arrow
  refine (ends_flagField h hobj "async").bind fun async _ => ?_
  refine (ends_params h hobj).bind fun params _ => (ends_field h "body").bind fun body hp => ?_
  refine (ends_type hp.1.content _).bind fun _ hl => ends_ite (fun _ => ?_) fun _ => ?_
  · exact (ends_block hp.1.content fun _ => hl).bind fun _ _ => trivial
  · refine (ends_expression hp.1 _).bind fun text htext => ?_
    split
    · trivial
    · next hno => exact Classical.byContradiction fun hmisfit => have ⟨s, hs⟩ := htext hmisfit; hno s hs

theorem ends_yield : EndsIn (yield place l) (fun _ => True) (Fault.Printing misfit) := by
  unfold yield
  refine (ends_flagField h hobj "delegate").bind fun _ _ => (ends_optionalField h hobj "argument").bind fun o ho => ?_
  cases o with
  | none => trivial
  | some argument => exact (ends_expressionText (ho argument rfl).1 _).bind fun _ _ => trivial

theorem ends_arguments : EndsIn (arguments place l) (fun _ => True) (Fault.Printing misfit) := by
  unfold arguments
  refine (ends_elementsOf h hobj "arguments").bind fun ps hps => ?_
  refine (ends_mapM (P := fun _ => True) fun p hp => ?_).bind fun parts _ => (ends_joined parts).bind fun _ _ => ends_pure.2 trivial
  exact (ends_expression (hps p hp).1 _).mono fun _ _ => trivial

theorem ends_call : EndsIn (call place l) (fun _ => True) (Fault.Printing misfit) := by
  unfold call
  refine (ends_field h "callee").bind fun _ hp => (ends_expression hp.1 _).bind fun callee _ => ?_
  exact (ends_arguments h hobj).bind fun _ _ => (ends_asText callee).bind fun _ _ => ends_pure.2 trivial

theorem ends_construct : EndsIn (construct place l) (fun _ => True) (Fault.Printing misfit) := by
  unfold construct
  refine (ends_field h "callee").bind fun callee hp => ?_
  extract_lets rest
  have hrest (text : String) : EndsIn (rest text) (fun _ => True) (Fault.Printing misfit) :=
    (ends_arguments h hobj).bind fun _ _ => ends_pure.2 trivial
  refine (ends_callInside hp.1).bind fun _ _ => ends_ite (fun _ => ?_) fun _ => ?_
  · exact (ends_expressionText hp.1 _).bind fun _ _ => hrest _
  · exact (ends_expressionText hp.1 _).bind fun _ _ => hrest _

theorem ends_memberAccess : EndsIn (memberAccess place l) (fun _ => True) (Fault.Printing misfit) := by
  unfold memberAccess
  refine (ends_field h "object").bind fun object hp => (ends_expression hp.1 _).bind fun text htext => ?_
  refine (ends_isBareNumber hp.1.content htext).bind fun bare _ => (ends_asText text).bind fun _ _ => ?_
  extract_lets text
  refine (ends_flagField h hobj "computed").bind fun _ _ => ends_ite (fun _ => ?_) fun _ => ?_
  · exact (ends_field h "property").bind fun _ hp => (ends_expressionText hp.1 _).bind fun _ _ => trivial
  · exact (ends_nameOf h "property").bind fun _ _ => trivial

end Operands

/-- The text and precedence of an expression node. -/
theorem ends_fragmentOf {type : String} {fields : Fields Printable} (h : (Layer.obj fields).Every (Fit misfit))
    (htype : Fields.type? (Fields.mapValues Annotated.source fields) = some type)
    (hjoint : ¬ misfit → Joint.holds (Fields.mapValues Annotated.source fields) = true) :
    EndsIn (fragmentOf type place (.obj fields)) (fun f => ¬ misfit → ∃ s, f.text = .str s) (Fault.Printing misfit) := by
  have hobj (_ : ¬ misfit) : ∃ fs, Layer.obj fields = .obj fs := ⟨fields, rfl⟩
  have htext {act : Except Fault String} {precedence : Precedence} (hact : EndsIn act (fun _ => True) (Fault.Printing misfit)) :
      EndsIn (do return fragmentWith precedence (← act)) (fun f => ¬ misfit → ∃ s, f.text = .str s) (Fault.Printing misfit) :=
    hact.bind fun _ _ _ => ⟨_, rfl⟩
  unfold fragmentOf
  split
  · refine (ends_field h "name").bind fun p hp hno => ?_
    obtain ⟨-, _, ⟨⟩, hget⟩ := hp
    have hname : Joint.isText (some p.source) = true := by simpa [Joint.holds, htype, hget] using hjoint hno
    cases hsource : p.source with
    | str s => exact ⟨s, rfl⟩
    | _ => rw [hsource] at hname; cases hname
  · exact fun _ => ⟨_, rfl⟩
  · exact fun _ => ⟨_, rfl⟩
  · exact (ends_nameOf h "meta").bind fun _ _ => (ends_nameOf h "property").bind fun _ _ _ => ⟨_, rfl⟩
  · refine (ends_literal h hobj ?_).bind fun _ hraw => hraw
    rintro hno _ ⟨⟩
    simpa [Joint.holds, htype] using hjoint hno
  · exact htext (ends_template h hobj)
  · refine (ends_field h "tag").bind fun _ htag => (ends_expression htag.1 _).bind fun tag _ => ?_
    refine (ends_field h "quasi").bind fun p hp => ?_
    obtain ⟨hp, _, ⟨⟩, hget⟩ := hp
    refine (ends_template hp.content fun hno => exists_obj_of_isObject hp ?_).bind fun _ _ => ?_
    · simpa [Joint.holds, htype, hget] using hjoint hno
    · exact (ends_asText tag).bind fun _ _ _ => ⟨_, rfl⟩
  · exact htext (ends_array h hobj)
  · exact htext (ends_array h hobj)
  · refine htext (ends_object h hobj ?_)
    rintro hno _ ⟨⟩
    simpa [Joint.holds, htype] using hjoint hno
  · refine htext (ends_object h hobj ?_)
    rintro hno _ ⟨⟩
    simpa [Joint.holds, htype] using hjoint hno
  · refine htext (ends_function h hobj ?_)
    rintro hno _ ⟨⟩
    simpa [Joint.holds, htype] using hjoint hno
  · refine htext (ends_classText h hobj ?_)
    rintro hno _ ⟨⟩
    simpa [Joint.holds, htype] using hjoint hno
  · exact htext (ends_arrow h hobj)
  · exact htext (ends_spread h)
  · exact htext (ends_spread h)
  · exact htext (ends_defaulted h)
  · exact htext (ends_assignment h)
  · exact htext (ends_sequence h)
  · exact htext (ends_conditional h)
  · exact (ends_binary h).mono fun _ hf _ => hf
  · exact (ends_binary h).mono fun _ hf _ => hf
  · refine htext (ends_unary h ?_)
    rintro hno _ ⟨⟩
    simpa [Joint.holds, htype] using hjoint hno
  · exact (ends_field h "argument").bind fun _ hp => (ends_expressionText hp.1 _).bind fun _ _ _ => ⟨_, rfl⟩
  · exact htext (ends_yield h hobj)
  · exact (ends_update h).mono fun _ hf _ => hf
  · exact htext (ends_call h hobj)
  · exact htext (ends_construct h hobj)
  · exact htext (ends_memberAccess h hobj)
  · trivial

end Expressions

/-! ## Statements -/

section Statements

variable {place : Place} {l : Layer Printable} {p : Printable}

section Parts

variable (h : l.Every (Fit misfit))

include h

theorem ends_directive (content : Printable) (hexpression : Holds misfit l "expression" Joint.isObject) :
    EndsIn (directive l content) (fun _ => True) (Fault.Printing misfit) := by
  unfold directive
  refine (ends_field h "expression").bind fun e he => ?_
  refine (ends_optionalField he.1.content (fun hno => hexpression.exists_obj hno he) "raw").bind fun o _ => ?_
  cases o with
  | none => trivial
  | some raw => exact ends_ite (fun _ => (ends_asText _).bind fun _ _ => trivial) fun _ => trivial

omit h in
theorem ends_loopTarget (h : p.Every (Fit misfit)) : EndsIn (loopTarget place p) (fun _ => True) (Fault.Printing misfit) := by
  unfold loopTarget
  refine (ends_type h.content _).bind fun _ _ => ends_ite (fun _ => ends_declaration h.content) fun _ => ?_
  exact ends_expressionText h _

theorem ends_eachLoop (word : String) (required : Precedence) :
    EndsIn (eachLoop word required place l) (fun _ => True) (Fault.Printing misfit) := by
  refine (ends_field h "left").bind fun _ hleft => (ends_loopTarget hleft.1).bind fun _ _ => ?_
  refine (ends_field h "right").bind fun _ hright => (ends_expressionText hright.1 _).bind fun _ _ => ?_
  exact (ends_field h "body").bind fun _ hbody => (ends_nested hbody.1).bind fun _ _ => trivial

theorem ends_whileLoop : EndsIn (whileLoop place l) (fun _ => True) (Fault.Printing misfit) := by
  refine (ends_field h "test").bind fun _ htest => (ends_expressionText htest.1 _).bind fun _ _ => ?_
  exact (ends_field h "body").bind fun _ hbody => (ends_nested hbody.1).bind fun _ _ => trivial

theorem ends_doLoop : EndsIn (doLoop place l) (fun _ => True) (Fault.Printing misfit) := by
  refine (ends_field h "body").bind fun body hbody => (ends_nested hbody.1).bind fun _ _ => ?_
  refine (ends_type hbody.1.content _).bind fun _ _ => ?_
  exact (ends_field h "test").bind fun _ htest => (ends_expressionText htest.1 _).bind fun _ _ => trivial

variable (hobj : ¬ misfit → ∃ fields, l = .obj fields)

include hobj

theorem ends_expressionStatement
    (hexpression : ¬ misfit → ∀ fields, l = .obj fields → (Fields.get? "directive" fields).any (fun d => d.source.truthy) = true →
      Joint.isObject ((Fields.get? "expression" fields).map Annotated.source) = true) :
    EndsIn (expressionStatement place l) (fun _ => True) (Fault.Printing misfit) := by
  unfold expressionStatement
  refine (ends_optionalField h hobj "directive").bind fun o ho => ?_
  split
  · next d hd =>
    obtain ⟨rfl, htrue⟩ := Option.filter_eq_some_iff.1 hd
    refine ends_directive h d fun hno fields hl => hexpression hno fields hl ?_
    obtain ⟨hp, -, _, hl', hget⟩ := ho d rfl
    cases hl.symm.trans hl'
    have hplain : d.source = Annotated.plain (layer d) := hp.here.plain
    rwa [hget, Option.any_some, hplain, truthy_plain]
  · refine (ends_field h "expression").bind fun _ hp => (ends_expression hp.1 _).bind fun text htext => ?_
    split
    · trivial
    · next hno => exact Classical.byContradiction fun hmisfit => have ⟨s, hs⟩ := htext hmisfit; hno s hs

theorem ends_jump (word : String) : EndsIn (jump word l) (fun _ => True) (Fault.Printing misfit) := by
  unfold jump
  refine (ends_optionalField h hobj "label").bind fun o ho => ?_
  split
  · next label hlabel =>
    obtain ⟨rfl, -⟩ := Option.filter_eq_some_iff.1 hlabel
    exact (ends_textOf (ho label rfl).1.content "name").bind fun _ _ => trivial
  · trivial

theorem ends_branch : EndsIn (branch place l) (fun _ => True) (Fault.Printing misfit) := by
  unfold branch
  refine (ends_field h "consequent").bind fun yes hyes => (ends_optionalField h hobj "alternate").bind fun o ho => ?_
  cases o with
  | none =>
    refine (ends_field h "test").bind fun _ htest => (ends_expressionText htest.1 _).bind fun _ _ => ?_
    exact (ends_nested hyes.1).bind fun _ _ => trivial
  | some no =>
    obtain ⟨hno, -, -⟩ := ho no rfl
    refine (ends_type hyes.1.content _).bind fun wrapped _ => ?_
    refine (ends_field h "test").bind fun _ htest => (ends_expressionText htest.1 _).bind fun test _ => ?_
    extract_lets rest
    have hrest (text : String) : EndsIn (rest text) (fun _ => True) (Fault.Printing misfit) := by
      refine (ends_type hyes.1.content _).bind fun _ _ => ?_
      extract_lets gap
      refine (ends_type hno.content _).bind fun _ _ => ends_ite (fun _ => ?_) fun _ => ?_
      · exact (ends_statement hno).bind fun _ _ => trivial
      · exact (ends_nested hno).bind fun _ _ => trivial
    refine ends_ite (fun _ => (ends_inBraces ?_).bind fun _ _ => hrest _) fun _ => (ends_nested hyes.1).bind fun _ _ => hrest _
    exact List.forall_mem_singleton.2 hyes.1

theorem ends_loopInit : EndsIn (loopInit place l) (fun _ => True) (Fault.Printing misfit) := by
  unfold loopInit
  refine (ends_optionalField h hobj "init").bind fun o ho => ?_
  cases o with
  | none => trivial
  | some init =>
    refine (ends_type (ho init rfl).1.content _).bind fun _ _ => ends_ite (fun _ => ?_) fun _ => ?_
    · exact (ends_declaration (ho init rfl).1.content).bind fun _ _ => trivial
    · exact (ends_expression (ho init rfl).1 _).mono fun _ _ => trivial

theorem ends_optionalExpression (key : String) :
    EndsIn (optionalExpression place key l) (fun _ => True) (Fault.Printing misfit) := by
  unfold optionalExpression
  refine (ends_optionalField h hobj key).bind fun o ho => ?_
  cases o with
  | none => trivial
  | some e => exact (ends_expression (ho e rfl).1 _).mono fun _ _ => trivial

theorem ends_countedLoop : EndsIn (countedLoop place l) (fun _ => True) (Fault.Printing misfit) := by
  unfold countedLoop
  refine (ends_loopInit h hobj).bind fun init _ => (ends_optionalExpression h hobj "test").bind fun test _ => ?_
  refine (ends_optionalExpression h hobj "update").bind fun update _ => ?_
  refine (ends_asText init).bind fun _ _ => (ends_asText test).bind fun _ _ => (ends_asText update).bind fun _ _ => ?_
  exact (ends_field h "body").bind fun _ hbody => (ends_nested hbody.1).bind fun _ _ => trivial

theorem ends_handler (hbody : Holds misfit l "body" Joint.isObject) :
    EndsIn (handler place l) (fun _ => True) (Fault.Printing misfit) := by
  unfold handler
  extract_lets rest
  have hrest (param : String) : EndsIn (rest param) (fun _ => True) (Fault.Printing misfit) :=
    (ends_body h hbody).bind fun _ _ => ends_pure.2 trivial
  refine (ends_optionalField h hobj "param").bind fun o ho => ?_
  cases o with
  | none => exact hrest ""
  | some param => exact (ends_expressionText (ho param rfl).1 _).bind fun _ _ => hrest _

theorem ends_tryStatement (hblock : Holds misfit l "block" Joint.isObject)
    (hhandler : Holds misfit l "handler" (Joint.orNull Joint.hasBody))
    (hfinalizer : Holds misfit l "finalizer" (Joint.orNull Joint.isObject)) :
    EndsIn (tryStatement place l) (fun _ => True) (Fault.Printing misfit) := by
  unfold tryStatement
  refine (ends_field h "block").bind fun block hblock' => ?_
  refine (ends_block hblock'.1.content fun hno => hblock.exists_obj hno hblock').bind fun _ _ => ?_
  extract_lets rest
  have hrest (caught : String) : EndsIn (rest caught) (fun _ => True) (Fault.Printing misfit) := by
    refine (ends_optionalField h hobj "finalizer").bind fun o ho => ?_
    cases o with
    | none => trivial
    | some f =>
      obtain ⟨hf, hnull, hget⟩ := ho f rfl
      refine (ends_block hf.content fun hno => ?_).bind fun _ _ => trivial
      exact exists_obj_of_isObject hf (hfinalizer.of_orNull hno hnull hget)
  refine (ends_optionalField h hobj "handler").bind fun o ho => ?_
  cases o with
  | none => exact hrest ""
  | some c =>
    obtain ⟨hc, hnull, hget⟩ := ho c rfl
    have hbody (hno : ¬ misfit) := exists_obj_of_hasBody hc (hhandler.of_orNull hno hnull hget)
    refine (ends_handler hc.content (fun hno => ?_) ?_).bind fun _ _ => hrest _
    · obtain ⟨fs, hfs, -⟩ := hbody hno
      exact ⟨fs, hfs⟩
    · rintro hno fs hfs
      obtain ⟨fs', hfs', hb⟩ := hbody hno
      cases hfs.symm.trans hfs'
      exact hb

omit h hobj in
theorem ends_switchCase (h : p.Every (Fit misfit)) (hp : ¬ misfit → Joint.isObject (some p.source) = true) :
    EndsIn (switchCase place p) (fun _ => True) (Fault.Printing misfit) := by
  have hobj (hno : ¬ misfit) : ∃ fields, layer p = .obj fields := exists_obj_of_isObject h (hp hno)
  unfold switchCase
  extract_lets rest
  have hrest (label : String) : EndsIn (rest label) (fun _ => True) (Fault.Printing misfit) := by
    refine (ends_elementsOf h.content hobj "consequent").bind fun ps hps => ?_
    refine (ends_mapM (P := fun _ => True) fun p hp => ?_).bind fun _ _ => trivial
    exact (ends_statement (hps p hp).1).bind fun _ _ => trivial
  refine (ends_optionalField h.content hobj "test").bind fun o ho => ?_
  cases o with
  | none => exact hrest _
  | some test => exact (ends_expressionText (ho test rfl).1 _).bind fun _ _ => hrest _

theorem ends_switchStatement (hcases : Holds misfit l "cases" (Joint.isList fun case => Joint.isObject (some case))) :
    EndsIn (switchStatement place l) (fun _ => True) (Fault.Printing misfit) := by
  unfold switchStatement
  refine (ends_field h "discriminant").bind fun _ hp => (ends_expressionText hp.1 _).bind fun _ _ => ?_
  refine (ends_elementsOf h hobj "cases").bind fun ps hps => ?_
  refine (ends_mapM (P := fun _ => True) fun p hp => ends_switchCase (hps p hp).1 fun hno => ?_).bind fun _ _ => trivial
  obtain ⟨fields, hl⟩ := hobj hno
  exact (hps p hp).2 fields _ hl (hcases hno fields hl)

/-- Whether a chain of members holds a call. -/
theorem ends_chainHasCall : EndsIn (chainHasCall l) (fun _ => True) (Fault.Printing misfit) := by
  unfold chainHasCall
  refine ends_ite (fun _ => trivial) fun _ => (ends_types h _).bind fun _ _ => ends_ite (fun _ => trivial) fun _ => ?_
  refine (ends_type h _).bind fun _ _ => ends_ite (fun _ => trivial) fun _ => ?_
  refine (ends_optionalField h hobj "object").bind fun o ho => ?_
  split
  · next object hobject =>
    exact ends_callInside (ho object (Option.filter_eq_some_iff.1 hobject).1).1
  · refine (ends_optionalField h hobj "tag").bind fun o ho => ?_
    cases o with
    | none => trivial
    | some tag => exact ends_callInside (ho tag rfl).1

end Parts

/-- The text of a statement node. -/
theorem ends_statementOf {type : String} {fields : Fields Printable} (h : (Layer.obj fields).Every (Fit misfit))
    (htype : Fields.type? (Fields.mapValues Annotated.source fields) = some type)
    (hjoint : ¬ misfit → Joint.holds (Fields.mapValues Annotated.source fields) = true) :
    EndsIn (statementOf type place (.obj fields)) (fun _ => True) (Fault.Printing misfit) := by
  have hobj (_ : ¬ misfit) : ∃ fs, Layer.obj fields = .obj fs := ⟨fields, rfl⟩
  unfold statementOf
  split
  · exact ends_block h hobj
  · trivial
  · trivial
  · refine ends_expressionStatement h hobj ?_
    rintro hno _ ⟨⟩ htrue
    simpa [Joint.holds, htype, Option.any_map, Function.comp_def, htrue] using hjoint hno
  · exact (ends_declaration h).bind fun _ _ => trivial
  · refine ends_function h hobj ?_
    rintro hno _ ⟨⟩
    simpa [Joint.holds, htype] using hjoint hno
  · refine ends_classText h hobj ?_
    rintro hno _ ⟨⟩
    simpa [Joint.holds, htype] using hjoint hno
  · refine (ends_optionalField h hobj "argument").bind fun o ho => ?_
    cases o with
    | none => trivial
    | some argument => exact (ends_expressionText (ho argument rfl).1 _).bind fun _ _ => trivial
  · exact (ends_field h "argument").bind fun _ hp => (ends_expressionText hp.1 _).bind fun _ _ => trivial
  · exact ends_jump h hobj _
  · exact ends_jump h hobj _
  · refine (ends_nameOf h "label").bind fun _ _ => (ends_field h "body").bind fun _ hp => ?_
    exact (ends_statement hp.1).bind fun _ _ => trivial
  · exact ends_branch h hobj
  · exact ends_countedLoop h hobj
  · exact ends_eachLoop h _ _
  · exact ends_eachLoop h _ _
  · exact ends_whileLoop h
  · exact ends_doLoop h
  · have hj (hno : ¬ misfit) := hjoint hno
    simp only [Joint.holds, htype, Bool.and_eq_true, Fields.get?_mapValues] at hj
    refine ends_tryStatement h hobj ?_ ?_ ?_
    · rintro hno _ ⟨⟩; exact (hj hno).1.1
    · rintro hno _ ⟨⟩; exact (hj hno).1.2
    · rintro hno _ ⟨⟩; exact (hj hno).2
  · refine ends_switchStatement h hobj ?_
    rintro hno _ ⟨⟩
    simpa [Joint.holds, htype] using hjoint hno
  · trivial

theorem ends_typeText {fields : Fields Printable} (h : (Layer.obj fields).Every (Fit misfit)) :
    EndsIn (textOf "type" (.obj fields)) (fun type => Fields.type? (Fields.mapValues Annotated.source fields) = some type)
      (Fault.Printing misfit) := by
  refine (ends_field h "type").bind fun p hp => ?_
  obtain ⟨-, _, ⟨⟩, hget⟩ := hp
  cases hsource : p.source with
  | str s => exact Fields.type?_of_get? (by rw [Fields.get?_mapValues, hget, Option.map_some, hsource])
  | _ => trivial

/-- The forms of a value end as those of its parts. -/
theorem printing_forms (h : l.Every (Fit misfit))
    (hjoint : ¬ misfit → ∀ fields, l = .obj fields → Joint.holds (Fields.mapValues Annotated.source fields) = true) :
    (forms l).Printing misfit := by
  cases l with
  | obj fields =>
    have hholds (hno : ¬ misfit) := hjoint hno fields rfl
    exact {
      callInside := ends_chainHasCall h fun _ => ⟨fields, rfl⟩
      statement _ := (ends_typeText h).bind fun _ htype => ends_statementOf h htype hholds
      fragment _ := (ends_typeText h).bind fun _ htype => ends_fragmentOf h htype hholds }
  | _ => exact fit_none _

/-- Values are noted as they stand. -/
theorem plain_annotate {β : Type} (f : Layer (Annotated β) → β) (j : Json) :
    Annotated.plain (j.annotate f).content = j := by
  cases j with
  | arr items =>
    change Json.arr ((Json.annotateItems f items).map Annotated.source) = _
    rw [Json.annotateItems_eq_map, List.map_map]
    simp [Function.comp_def, Json.source_annotate]
  | obj fields =>
    change Json.obj (Fields.mapValues Annotated.source (Json.annotateFields f fields)) = _
    rw [Json.annotateFields_eq_mapValues, Fields.mapValues_mapValues]
    simp [Json.source_annotate, Fields.mapValues]
  | _ => rfl

theorem every_fit {j : Json} (h : ¬ misfit → j.Jointed) : (j.annotate forms).Every (Fit misfit) := by
  refine .annotate (D := fun j => ¬ misfit → j.Jointed) ?_ ?_ (fun j hj hitems hfields => ?_) j h
  · exact fun items hj x hx hno => Json.everyObject_arr.1 (hj hno) x hx
  · exact fun fields hj f hf hno => (Json.everyObject_obj.1 (hj hno)).2 f hf
  · have hplain := plain_annotate forms j
    have hnote : (j.annotate forms).note = forms (j.annotate forms).content := by cases j <;> rfl
    refine ⟨hnote ▸ printing_forms ⟨hitems, hfields⟩ fun hno fields hl => ?_, ?_, fun hno fields hsource => ?_⟩
    · rw [hl] at hplain
      have hobj : Json.obj (Fields.mapValues Annotated.source fields) = j := hplain
      exact (Json.everyObject_obj.1 (hobj ▸ hj hno : (Json.obj _).Jointed)).1
    · rw [hplain, Json.source_annotate]
    · rw [Json.source_annotate] at hsource
      exact (Json.everyObject_obj.1 (hsource ▸ hj hno : (Json.obj fields).Jointed)).1

end Statements

end Printable

/-- Printing a program ends with a text or with a fault of printing. -/
theorem ends_printNode {misfit : Prop} {j : Json} (h : ¬ misfit → j.type? = some "Program" ∧ j.Jointed) :
    EndsIn (printNode j) (fun out => j.type? = some "Program" → ∃ text, out = .str text) (Fault.Printing misfit) := by
  have hevery := Printable.every_fit fun hno => (h hno).2
  unfold printNode
  extract_lets p
  refine (Printable.ends_field hevery.content "type").bind fun type htype => ?_
  obtain ⟨-, fields, hl, hget⟩ := htype
  have hplain := Printable.plain_annotate Printable.forms j
  rw [show (j.annotate Printable.forms).content = .obj fields from hl] at hplain
  have hj : Fields.get? "type" (Fields.mapValues Annotated.source fields) = some type.source := by
    rw [Fields.get?_mapValues, hget, Option.map_some]
  have htype : j.type? = type.source.string? := by
    rw [← hplain]
    change (Fields.get? "type" (Fields.mapValues Annotated.source fields)).bind Json.string? = _
    rw [hj, Option.bind_some]
  split
  · refine (Printable.ends_elementsOf hevery.content (fun _ => ⟨fields, hl⟩) "body").bind fun ps hps => ?_
    refine (ends_mapM (P := fun _ => True) fun p hp => ?_).bind fun _ _ _ => ⟨_, rfl⟩
    exact Printable.ends_statement (hps p hp).1
  · next s hne hs =>
    have hno : j.type? ≠ some "Program" := by
      rw [htype, hs]
      exact fun he => hne (Option.some.inj he)
    refine ends_ite (fun _ => ?_) fun _ => ?_
    · exact (Printable.ends_statement hevery).bind fun _ _ => fun h => absurd h hno
    · exact (Printable.ends_expression hevery _).mono fun _ _ h => absurd h hno
  · next hnot =>
    refine Classical.byContradiction fun hno => ?_
    obtain ⟨hprogram, -⟩ := h hno
    rw [htype] at hprogram
    cases hs : type.source with
    | str s => exact hnot s hs
    | _ => rw [hs] at hprogram; cases hprogram

end ScriptTrace
