import ScriptTrace.Proofs.Outcomes

/-!
# Faults of reading

The functions that read a tree of any form end with an answer, or with a fault that tells that something is
missing, of the wrong kind, or does not offer what is asked of it.

* `CoversReading E` : faults of these three kinds are in `E`;
* `Annotated.Every` : what holds of a noted value and of all values in it;
* `Every.annotate`, `Every.annotate_all` : what a rule keeps holds of all notes it gives;
* `ends_bindingNames`, `ends_targetsOf`, `ends_functionName`, ... : the functions that read nodes.
-/

namespace ScriptTrace

variable {α β : Type} {E : Fault → Prop}

/-- Faults among which are all those of reading. -/
structure CoversReading (E : Fault → Prop) : Prop where
  missing (key : Json) : E (.missing key)
  wrongKind : E .wrongKind
  unsupported : E .unsupported

/-! ## Layers -/

section Layers

variable (hE : CoversReading E) {l : Layer α}

include hE

theorem ends_require (key : String) :
    EndsIn (l.require key) (fun x => ∃ fields, l = .obj fields ∧ Fields.get? key fields = some x) E := by
  cases l with
  | obj fields =>
    rw [Layer.require]
    cases h : Fields.get? key fields with
    | none => exact hE.missing (.str key)
    | some x => exact ⟨fields, rfl, h⟩
  | _ => exact hE.wrongKind

variable [Layered α]

theorem ends_optional (key : String) :
    EndsIn (l.optional key) (fun o => ∀ x, o = some x → ∃ fields, l = .obj fields ∧ Fields.get? key fields = some x) E := by
  cases l with
  | obj fields =>
    intro x hx
    exact ⟨fields, rfl, (Option.filter_eq_some_iff.1 hx).1⟩
  | _ => exact hE.unsupported

theorem ends_flag (key : String) : EndsIn (l.flag key) (fun _ => True) E :=
  (ends_optional hE key).bind fun _ _ => trivial

theorem ends_elements : EndsIn l.elements (fun xs => ∀ x ∈ xs, l = .arr xs ∨ ∃ s, x = Layered.ofString s) E := by
  cases l with
  | arr items => exact fun _ _ => .inl rfl
  | obj fields =>
    intro x hx
    obtain ⟨f, -, rfl⟩ := List.mem_map.1 hx
    exact .inr ⟨_, rfl⟩
  | str s =>
    intro x hx
    obtain ⟨c, -, rfl⟩ := List.mem_map.1 hx
    exact .inr ⟨_, rfl⟩
  | _ => exact hE.wrongKind

theorem ends_hasType (type : String) : EndsIn (l.hasType type) (fun _ => True) E :=
  (ends_require hE "type").bind fun _ _ => trivial

theorem ends_hasTypeIn (types : List String) : EndsIn (l.hasTypeIn types) (fun _ => True) E :=
  (ends_require hE "type").bind fun _ _ => trivial

end Layers

/-! ## Noted values -/

/-- What holds of a noted value, and of all values in it. -/
inductive Annotated.Every (P : Annotated β → Prop) : Annotated β → Prop
  | intro (p : Annotated β) (here : P p) (items : ∀ xs, p.content = .arr xs → ∀ x ∈ xs, Every P x)
      (fields : ∀ fs, p.content = .obj fs → ∀ f ∈ fs, Every P f.2) : Every P p

/-- What holds of all values in a layer. -/
structure Layer.Every (P : Annotated β → Prop) (l : Layer (Annotated β)) : Prop where
  items : ∀ xs, l = .arr xs → ∀ x ∈ xs, x.Every P
  fields : ∀ fs, l = .obj fs → ∀ f ∈ fs, f.2.Every P

namespace Annotated.Every

variable {P : Annotated β → Prop} {p : Annotated β}

theorem here (h : p.Every P) : P p := by
  cases h with
  | intro _ here => exact here

theorem content [Inhabited β] (h : p.Every P) : (layer p).Every P := by
  cases h with
  | intro _ _ items fields => exact ⟨items, fields⟩

/-- What a rule keeps holds of all notes that it gives. `D` is known of the value, and so of all values in it. -/
theorem annotate {f : Layer (Annotated β) → β} {D : Json → Prop} (hitems : ∀ items, D (.arr items) → ∀ x ∈ items, D x)
    (hfields : ∀ fields, D (.obj fields) → ∀ g ∈ fields, D g.2)
    (hf : ∀ j : Json, D j → (∀ xs, (j.annotate f).content = .arr xs → ∀ x ∈ xs, x.Every P) →
      (∀ fs, (j.annotate f).content = .obj fs → ∀ g ∈ fs, g.2.Every P) → P (j.annotate f)) :
    ∀ j : Json, D j → (j.annotate f).Every P := by
  have hmake (j : Json) (hj : D j) (hitems : ∀ xs, (j.annotate f).content = .arr xs → ∀ x ∈ xs, x.Every P)
      (hfields : ∀ fs, (j.annotate f).content = .obj fs → ∀ g ∈ fs, g.2.Every P) : (j.annotate f).Every P :=
    .intro _ (hf j hj hitems hfields) hitems hfields
  intro j
  induction j using Json.ind with
  | scalar j hatom =>
    intro hj
    cases j with
    | arr items => cases hatom
    | obj fields => cases hatom
    | _ => exact hmake _ hj nofun nofun
  | arr items ih =>
    intro hj
    refine hmake (.arr items) hj ?_ nofun
    rintro xs ⟨⟩ x hx
    rw [Json.annotateItems_eq_map] at hx
    obtain ⟨v, hv, rfl⟩ := List.mem_map.1 hx
    exact ih v hv (hitems items hj v hv)
  | obj fields ih =>
    intro hj
    refine hmake (.obj fields) hj nofun ?_
    rintro fs ⟨⟩ g hg
    rw [Json.annotateFields_eq_mapValues] at hg
    obtain ⟨v, hv, rfl⟩ := List.mem_map.1 hg
    exact ih v hv (hfields fields hj v hv)

/-- What a rule keeps of every value holds of all notes that it gives. -/
theorem annotate_all {f : Layer (Annotated β) → β}
    (hf : ∀ j : Json, (∀ xs, (j.annotate f).content = .arr xs → ∀ x ∈ xs, x.Every P) →
      (∀ fs, (j.annotate f).content = .obj fs → ∀ g ∈ fs, g.2.Every P) → P (j.annotate f)) (j : Json) :
    (j.annotate f).Every P :=
  annotate (D := fun _ => True) (fun _ _ _ _ => trivial) (fun _ _ _ _ => trivial) (fun j _ => hf j) j trivial

end Annotated.Every

section Noted

variable {P : Annotated β → Prop} {l : Layer (Annotated β)} (hE : CoversReading E) (h : l.Every P)

include hE h

theorem Layer.Every.require (key : String) : EndsIn (l.require key) (Annotated.Every P) E :=
  (ends_require hE key).mono fun _ ⟨fields, hl, hx⟩ => h.fields fields hl _ (Fields.mem_of_get? hx)

variable [Inhabited β]

theorem Layer.Every.optional (key : String) : EndsIn (l.optional key) (fun o => ∀ x, o = some x → x.Every P) E :=
  (ends_optional hE key).mono fun _ ho x hx =>
    have ⟨fields, hl, hx⟩ := ho x hx
    h.fields fields hl _ (Fields.mem_of_get? hx)

variable (hstring : ∀ s : String, (Layered.ofString s : Annotated β).Every P)

include hstring

theorem Layer.Every.elements : EndsIn l.elements (fun xs => ∀ x ∈ xs, x.Every P) E :=
  (ends_elements hE).mono fun xs hxs x hx => by
    rcases hxs x hx with hl | ⟨s, rfl⟩
    · exact h.items xs hl x hx
    · exact hstring s

theorem Layer.Every.elementsOf (key : String) : EndsIn (l.elementsOf key) (fun xs => ∀ x ∈ xs, x.Every P) E := by
  refine (h.optional hE key).bind fun o ho => ?_
  cases o with
  | none => exact nofun
  | some x =>
    refine ends_ite (fun _ => ?_) (fun _ => nofun)
    exact (ho x rfl).content.elements hE hstring

end Noted

/-! ## Names and targets -/

section Names

variable (hE : CoversReading E)

include hE

/-- The names of the parts of a pattern, or a fault of reading. -/
def Names (E : Fault → Prop) (p : Annotated (Except Fault (List α))) : Prop := EndsIn p.note (fun _ => True) E

omit hE in
theorem every_names_string (s : String) : (Layered.ofString s : Annotated (Except Fault (List α))).Every (Names E) :=
  .intro _ trivial nofun nofun

omit hE in
theorem ends_namesOf {parts : List (Annotated (Except Fault (List α)))} (h : ∀ p ∈ parts, p.Every (Names E)) :
    EndsIn (namesOf parts) (fun _ => True) E :=
  (ends_mapM fun p hp => (h p hp).here).bind fun _ _ => trivial

theorem ends_memberNames {p : Annotated (Except Fault (List Json))} (h : p.Every (Names E)) :
    EndsIn (memberNames p) (fun _ => True) E := by
  refine (h.content.optional hE "type").bind fun type _ => ?_
  refine ends_ite (fun _ => h.here) fun _ => ?_
  refine (h.content.optional hE "value").bind fun value hvalue => ends_namesOf fun x hx => hvalue x ?_
  exact Option.mem_toList.1 hx

theorem ends_nameRule {l : Layer (Annotated (Except Fault (List Json)))} (h : l.Every (Names E)) :
    EndsIn (nameRule l) (fun _ => True) E := by
  have hoptional (key : String) : EndsIn (do namesOf (← l.optional key).toList) (fun _ => True) E :=
    (h.optional hE key).bind fun o ho => ends_namesOf fun x hx => ho x (Option.mem_toList.1 hx)
  have helements (key : String) : EndsIn (l.elementsOf key) (fun xs => ∀ x ∈ xs, x.Every (Names E)) E :=
    h.elementsOf hE every_names_string key
  unfold nameRule
  refine ends_ite (fun _ => trivial) fun _ => ?_
  refine (ends_hasType hE _).bind fun _ _ => ends_ite (fun _ => (h.require hE "name").bind fun _ _ => trivial) fun _ => ?_
  refine (ends_hasType hE _).bind fun _ _ => ends_ite (fun _ => hoptional "left") fun _ => ?_
  refine (ends_hasType hE _).bind fun _ _ => ends_ite (fun _ => hoptional "argument") fun _ => ?_
  refine (ends_hasType hE _).bind fun _ _ => ends_ite (fun _ => (helements "elements").bind fun _ h => ends_namesOf h) fun _ => ?_
  refine (ends_hasType hE _).bind fun _ _ => ends_ite (fun _ => ?_) fun _ => trivial
  refine (helements "properties").bind fun members hmembers => ?_
  exact (ends_mapM fun p hp => ends_memberNames hE (hmembers p hp)).bind fun _ _ => trivial

theorem ends_bindingNames (pattern : Json) : EndsIn (bindingNames pattern) (fun _ => True) E := by
  have h : (pattern.annotate nameRule).Every (Names E) := by
    refine .annotate_all (fun j hitems hfields => ?_) pattern
    have hrule := ends_nameRule hE ⟨hitems, hfields⟩
    cases j <;> exact hrule
  exact h.here

theorem ends_allBindingNames (patterns : List Json) : EndsIn (allBindingNames patterns) (fun _ => True) E :=
  (ends_mapM fun p _ => ends_bindingNames hE p).bind fun _ _ => trivial

/-- The root of a chain of members, or a fault of reading. -/
def Root (E : Fault → Prop) (p : Annotated (Except Fault (Option Target))) : Prop := EndsIn p.note (fun _ => True) E

theorem ends_rootRule {l : Layer (Annotated (Except Fault (Option Target)))} (h : l.Every (Root E)) :
    EndsIn (rootRule l) (fun _ => True) E := by
  unfold rootRule
  refine (ends_hasType hE _).bind fun _ _ => ends_ite (fun _ => (h.require hE "object").bind fun _ h => h.here) fun _ => ?_
  refine (ends_hasType hE _).bind fun _ _ => ends_ite (fun _ => trivial) fun _ => ?_
  refine (ends_hasType hE _).bind fun _ _ => ends_ite (fun _ => ?_) fun _ => trivial
  exact (h.require hE "name").bind fun _ _ => trivial

theorem ends_rootOf (j : Json) : EndsIn (rootOf j) (fun _ => True) E := by
  have h : (j.annotate rootRule).Every (Root E) := by
    refine .annotate_all (fun j hitems hfields => ?_) j
    have hrule := ends_rootRule hE ⟨hitems, hfields⟩
    cases j <;> exact hrule
  exact h.here

theorem ends_targetsOf (target : Json) : EndsIn (targetsOf target) (fun _ => True) E := by
  unfold targetsOf
  refine ends_ite (fun _ => trivial) fun _ => ?_
  refine (ends_hasType hE _).bind fun _ _ => ends_ite (fun _ => (ends_require hE "name").bind fun _ _ => trivial) fun _ => ?_
  refine (ends_hasType hE _).bind fun _ _ => ends_ite (fun _ => (ends_rootOf hE target).bind fun _ _ => trivial) fun _ => ?_
  refine (ends_hasTypeIn hE _).bind fun _ _ => ends_ite (fun _ => ?_) fun _ => trivial
  exact (ends_bindingNames hE target).bind fun _ _ => trivial

theorem ends_writtenRule {l : Layer (Annotated (Except Fault (List Target)))} (h : l.Every (Names E)) :
    EndsIn (writtenRule l) (fun _ => True) E := by
  unfold writtenRule
  refine ends_ite (fun _ => trivial) fun _ => ?_
  refine (ends_hasType hE _).bind fun _ _ => ends_ite (fun _ => ?_) fun _ => ?_
  · exact (ends_require hE "left").bind fun x _ => ends_targetsOf hE x.source
  refine (ends_hasType hE _).bind fun _ _ => ends_ite (fun _ => ?_) fun _ => ?_
  · exact (ends_require hE "argument").bind fun x _ => ends_targetsOf hE x.source
  refine (ends_hasType hE _).bind fun _ _ => ends_ite (fun _ => ?_) fun _ => trivial
  refine (h.require hE "expressions").bind fun x hx => ?_
  exact (hx.content.elements hE every_names_string).bind fun _ h => ends_namesOf h

theorem ends_writtenTargets (expression : Json) : EndsIn (writtenTargets expression) (fun _ => True) E := by
  have h : (expression.annotate writtenRule).Every (Names E) := by
    refine .annotate_all (fun j hitems hfields => ?_) expression
    have hrule := ends_writtenRule hE ⟨hitems, hfields⟩
    cases j <;> exact hrule
  exact h.here

/-! ## Names of functions -/

theorem ends_keyName (key : Json) : EndsIn (keyName key) (fun _ => True) E := by
  unfold keyName
  refine (ends_hasType hE _).bind fun _ _ => ends_ite (fun _ => (ends_require hE "name").bind fun _ _ => trivial) fun _ => ?_
  refine (ends_hasType hE _).bind fun _ _ => ends_ite (fun _ => ?_) fun _ => trivial
  exact (ends_require hE "value").bind fun _ _ => trivial

theorem ends_leftName (left : Json) : EndsIn (leftName left) (fun _ => True) E := by
  unfold leftName
  refine (ends_hasType hE _).bind fun _ _ => ends_ite (fun _ => (ends_require hE "name").bind fun _ _ => trivial) fun _ => ?_
  refine (ends_hasType hE _).bind fun _ _ => ends_ite (fun _ => ?_) fun _ => trivial
  refine (ends_flag hE "computed").bind fun _ _ => ends_ite (fun _ => trivial) fun _ => ?_
  exact (ends_require hE "property").bind fun _ _ => (ends_require hE "name").bind fun _ _ => trivial

theorem ends_nameFromParent (classes : List Json) (parent : Json) :
    EndsIn (nameFromParent classes parent) (fun _ => True) E := by
  unfold nameFromParent
  refine (ends_hasType hE _).bind fun _ _ => ends_ite (fun _ => ?_) fun _ => ?_
  · refine (ends_require hE "id").bind fun _ _ => (ends_hasType hE _).bind fun _ _ => ends_ite (fun _ => ?_) fun _ => trivial
    exact (ends_require hE "name").bind fun _ _ => trivial
  refine (ends_hasType hE _).bind fun _ _ => ends_ite (fun _ => ?_) fun _ => ?_
  · exact (ends_require hE "left").bind fun left _ => ends_leftName hE left
  refine (ends_hasType hE _).bind fun inClass _ => ?_
  have hkey : EndsIn (do
      if !(← (layer parent).hasTypeIn ["Property", "MethodDefinition"]) then return none
      else if ← (layer parent).flag "computed" then return none
      else keyName (← (layer parent).require "key")) (fun _ => True) E := by
    refine (ends_hasTypeIn hE _).bind fun _ _ => ends_ite (fun _ => trivial) fun _ => ?_
    refine (ends_flag hE "computed").bind fun _ _ => ends_ite (fun _ => trivial) fun _ => ?_
    exact (ends_require hE "key").bind fun key _ => ends_keyName hE key
  extract_lets constructs
  clear_value constructs
  cases constructs with
  | false => exact hkey
  | true =>
    cases classes with
    | nil => exact hkey
    | cons innermost classes => trivial

theorem ends_functionName (classes : List Json) (node : Json) (parent : Option Json) :
    EndsIn (functionName classes node parent) (fun _ => True) E := by
  unfold functionName
  refine (ends_optional hE "id").bind fun id _ => ?_
  split
  · exact (ends_require hE "name").mono fun _ _ => trivial
  · cases parent with
    | none => trivial
    | some parent => exact (ends_nameFromParent hE classes parent).bind fun _ _ => trivial

/-! ## Positions and sources -/

theorem ends_lineAt (which : String) (loc : Json) : EndsIn (Node.lineAt which loc) (fun _ => True) E := by
  unfold Node.lineAt
  refine ends_ite (fun _ => trivial) fun _ => (ends_optional hE which).bind fun place _ => ?_
  split
  · trivial
  · exact (ends_optional hE "line").bind fun _ _ => trivial

theorem ends_lineOf (loc : Json) : EndsIn (Node.lineOf loc) (fun _ => True) E :=
  (ends_lineAt hE "start" loc).bind fun _ _ => trivial

theorem ends_endLineOf (loc : Json) : EndsIn (Node.endLineOf loc) (fun _ => True) E := by
  unfold Node.endLineOf
  refine (ends_lineAt hE "end" loc).bind fun line _ => ?_
  cases line with
  | some line => trivial
  | none => exact ends_lineOf hE loc

theorem ends_bound (j : Json) : EndsIn (Node.bound j) (fun _ => True) E := by
  cases j <;> first | trivial | exact hE.wrongKind

theorem ends_rangeEnds (j : Json) : EndsIn (Node.rangeEnds j) (fun _ => True) E := by
  unfold Node.rangeEnds
  split
  · trivial
  · trivial
  · split
    · exact hE.wrongKind
    · trivial
  · split
    · exact hE.missing (.int 0)
    · trivial
  · exact hE.wrongKind

theorem ends_sourceText (node : Json) (code : Option String) : EndsIn (Node.sourceText node code) (fun _ => True) E := by
  unfold Node.sourceText
  extract_lets range
  split
  · trivial
  · trivial
  · refine ends_ite (fun _ => trivial) fun _ => (ends_rangeEnds hE _).bind fun ends _ => ?_
    split
    · trivial
    · exact (ends_bound hE _).bind fun _ _ => (ends_bound hE _).bind fun _ _ => trivial

/-! ## Readers of the rules -/

theorem ends_isConsole (callee : Json) : EndsIn (Visit.isConsole callee) (fun _ => True) E := by
  unfold Visit.isConsole
  refine (ends_hasType hE _).bind fun _ _ => (ends_flag hE "computed").bind fun _ _ => ends_ite (fun _ => trivial) fun _ => ?_
  refine (ends_require hE "object").bind fun _ _ => (ends_optional hE "type").bind fun _ _ => ends_ite (fun _ => trivial) fun _ => ?_
  refine (ends_require hE "name").bind fun _ _ => ends_ite (fun _ => trivial) fun _ => ?_
  exact (ends_require hE "property").bind fun _ _ => (ends_optional hE "name").bind fun _ _ => trivial

theorem ends_declaredNames (declaration : Json) : EndsIn (Visit.declaredNames declaration) (fun _ => True) E := by
  unfold Visit.declaredNames
  refine (ends_require hE "declarations").bind fun _ _ => (ends_elements hE).bind fun _ _ => ?_
  refine (ends_mapM (P := fun _ => True) fun d _ => ?_).bind fun _ _ => trivial
  exact (ends_require hE "id").bind fun id _ => ends_bindingNames hE id

theorem ends_iterationProbes (line left : Json) : EndsIn (Visit.iterationProbes line left) (fun _ => True) E := by
  unfold Visit.iterationProbes
  refine ends_ite (fun _ => trivial) fun _ => (ends_hasType hE _).bind fun _ _ => ends_ite (fun _ => ?_) fun _ => ?_
  · exact (ends_declaredNames hE left).bind fun _ _ => trivial
  · refine (ends_targetsOf hE left).bind fun targets _ => ?_
    cases targets <;> trivial

end Names

end ScriptTrace
