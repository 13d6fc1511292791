import ScriptTrace.Proofs.Grammar
import ScriptTrace.Syntax.Binding

/-!
# Reading the fields of a node

What the functions that read nodes answer, given what the fields hold.

* `mapM_eq_ok`, `mapM_eq_error` : lists that are read item by item;
* `hasType_obj` : the type of a node;
* `bindingNames_identifier`, ..., `bindingNames_other` : the names a pattern binds, type by type;
* `rootOf_member`, `rootOf_other` : the variable at the root of a chain of members;
* `writtenTargets_sequence`, ... : the targets of an expression.
-/

namespace ScriptTrace

variable {α β : Type}

@[simp] theorem ok_bind (a : α) (f : α → Except Fault β) : (Except.ok a >>= f) = f a := rfl

@[simp] theorem error_bind (e : Fault) (f : α → Except Fault β) : (Except.error e >>= f) = .error e := rfl

@[simp] theorem ok_map (f : α → β) (a : α) : f <$> (Except.ok a : Except Fault α) = .ok (f a) := rfl

@[simp] theorem error_map (f : α → β) (e : Fault) : f <$> (Except.error e : Except Fault α) = .error e := rfl

@[simp] theorem pure_eq_ok (a : α) : (pure a : Except Fault α) = .ok a := rfl

/-- A successful sequence of computations has successful parts. -/
theorem bind_eq_ok {r : Except Fault α} {f : α → Except Fault β} {b : β} :
    (r >>= f) = .ok b ↔ ∃ a, r = .ok a ∧ f a = .ok b := by
  cases r <;> simp

theorem map_eq_ok {r : Except Fault α} {f : α → β} {b : β} :
    f <$> r = .ok b ↔ ∃ a, r = .ok a ∧ f a = b := by
  cases r <;> simp

theorem mapM_eq_ok {ε α β : Type} {f : α → Except ε β} {as : List α} {bs : List β} :
    as.mapM f = .ok bs ↔ List.Forall₂ (fun a b => f a = .ok b) as bs := by
  induction as generalizing bs with
  | nil =>
    rw [List.mapM_nil, List.forall₂_nil_left_iff]
    exact ⟨fun h => (Except.ok.inj h).symm, fun h => congrArg Except.ok h.symm⟩
  | cons a as ih =>
    rw [List.mapM_cons, List.forall₂_cons_left_iff]
    cases ha : f a with
    | error e =>
      refine ⟨(by cases ·), fun h => ?_⟩
      obtain ⟨_, _, h, -⟩ := h
      cases h
    | ok b =>
      simp only [bind, Except.bind, pure, Except.pure]
      constructor
      · intro h
        cases hrest : as.mapM f with
        | error e =>
          rw [hrest] at h
          cases h
        | ok rest =>
          rw [hrest] at h
          cases h
          exact ⟨b, rest, rfl, ih.1 hrest, rfl⟩
      · intro h
        obtain ⟨_, rest, hb, hrest, rfl⟩ := h
        cases hb
        rw [ih.2 hrest]

/-- A list is refused for its first item that is. -/
theorem mapM_eq_error {ε α β : Type} {f : α → Except ε β} {as : List α} {fault : ε} : as.mapM f = .error fault ↔
    ∃ before bad after, as = before ++ bad :: after ∧ (∀ a ∈ before, ∃ b, f a = .ok b) ∧ f bad = .error fault := by
  induction as with
  | nil => exact ⟨(by cases ·), fun ⟨before, _, _, h, _⟩ => by cases before <;> cases h⟩
  | cons a as ih =>
    rw [List.mapM_cons]
    simp only [List.cons_eq_append_iff]
    cases ha : f a with
    | error found =>
      constructor
      · rintro ⟨⟩
        exact ⟨[], a, as, .inl ⟨rfl, rfl⟩, nofun, ha⟩
      · rintro ⟨before, bad, after, ⟨rfl, h⟩ | ⟨rest, rfl, -⟩, hbefore, hbad⟩
        · obtain ⟨rfl, rfl⟩ := List.cons.inj h
          rw [ha] at hbad
          cases hbad
          rfl
        · obtain ⟨b, hb⟩ := hbefore a List.mem_cons_self
          rw [ha] at hb
          cases hb
    | ok b =>
      have htail : (do let bs ← as.mapM f; pure (b :: bs) : Except ε (List β)) = .error fault ↔ as.mapM f = .error fault := by
        cases as.mapM f <;> simp [bind, Except.bind, pure, Except.pure]
      refine htail.trans (ih.trans ⟨?_, ?_⟩)
      · rintro ⟨before, bad, after, rfl, hbefore, hbad⟩
        exact ⟨a :: before, bad, after, .inr ⟨before, rfl, rfl⟩, List.forall_mem_cons.2 ⟨⟨b, ha⟩, hbefore⟩, hbad⟩
      · rintro ⟨before, bad, after, ⟨rfl, h⟩ | ⟨rest, rfl, h⟩, hbefore, hbad⟩
        · obtain ⟨rfl, rfl⟩ := List.cons.inj h
          rw [ha] at hbad
          cases hbad
        · exact ⟨rest, bad, after, h, (List.forall_mem_cons.1 hbefore).2, hbad⟩

/-- What one list has beside each item of another. -/
theorem exists_of_mem_forall₂ {α β : Type} {R : α → β → Prop} {as : List α} {bs : List β} (h : List.Forall₂ R as bs) :
    ∀ b ∈ bs, ∃ a ∈ as, R a b := by
  induction h with
  | nil => exact nofun
  | cons hab _ ih =>
    refine List.forall_mem_cons.2 ⟨⟨_, List.mem_cons_self, hab⟩, fun b hb => ?_⟩
    obtain ⟨a, ha, hR⟩ := ih b hb
    exact ⟨a, List.mem_cons_of_mem _ ha, hR⟩

namespace Fields

theorem get?_of_type? {fields : Fields Json} {type : String} (h : type? fields = some type) :
    get? "type" fields = some (.str type) := by
  unfold type? at h
  obtain ⟨v, hv, hs⟩ := Option.bind_eq_some_iff.1 h
  cases v with
  | str s => cases hs; exact hv
  | _ => cases hs

theorem type?_of_get? {fields : Fields Json} {type : String} (h : get? "type" fields = some (.str type)) :
    type? fields = some type := by
  simp [type?, h, Json.string?]

end Fields

/-! ## Layers -/

@[simp] theorem layer_json_obj (fields : Fields Json) : layer (Json.obj fields) = .obj fields := rfl

@[simp] theorem layer_json_arr (items : List Json) : layer (Json.arr items) = .arr items := rfl

@[simp] theorem layer_json_str (s : String) : layer (Json.str s) = .str s := rfl

namespace Layer

@[simp] theorem require_obj (key : String) (fields : Fields α) (x : α) :
    (Layer.obj fields).require key = .ok x ↔ Fields.get? key fields = some x := by
  unfold require
  cases h : Fields.get? key fields <;> simp [h]

theorem require_of_get? {key : String} {fields : Fields α} {x : α} (h : Fields.get? key fields = some x) :
    (Layer.obj fields).require key = .ok x :=
  (require_obj key fields x).2 h

@[simp] theorem elements_arr [Layered α] (items : List α) : (Layer.arr items).elements = .ok items := rfl

end Layer

theorem hasType_obj [Layered α] {fields : Fields α} {x : α} {type : String}
    (h : Fields.get? "type" fields = some x) (hx : layer x = .str type) (t : String) :
    (Layer.obj fields).hasType t = .ok (type == t) := by
  rw [Layer.hasType, Layer.require, h]
  simp [hx, Layer.isString]

theorem hasTypeIn_obj [Layered α] {fields : Fields α} {x : α} {type : String}
    (h : Fields.get? "type" fields = some x) (hx : layer x = .str type) (ts : List String) :
    (Layer.obj fields).hasTypeIn ts = .ok (ts.contains type) := by
  rw [Layer.hasTypeIn, Layer.require, h]
  simp only [ok_bind, pure_eq_ok, Except.ok.injEq, hx, Layer.isString]
  induction ts with
  | nil => rfl
  | cons t ts ih => rw [List.any_cons, List.contains_cons, ih]

namespace Json

theorem isNode_obj (fields : Fields Json) : (Json.obj fields).isNode = (Fields.get? "type" fields).isSome := rfl

theorem isNode_of_type? {j : Json} {type : String} (h : j.type? = some type) : j.isNode = true := by
  cases j with
  | obj fields => rw [isNode_obj, Fields.get?_of_type? h]; rfl
  | _ => cases h

theorem exists_fields_of_type? {j : Json} {type : String} (h : j.type? = some type) :
    ∃ fields, j = .obj fields ∧ Fields.type? fields = some type := by
  cases j with
  | obj fields => exact ⟨fields, rfl, h⟩
  | _ => cases h

theorem field_of_get? {fields : Fields Json} {key : String} {v : Json} (h : Fields.get? key fields = some v) :
    field key (.obj fields) = v := by
  rw [field, get?, h]
  rfl

theorem layer_str (s : String) : layer (Json.str s) = .str s := rfl

/-- A flag that is read is whether the field counts as true. -/
theorem flag_eq_ok {j : Json} {key : String} {b : Bool} (h : (layer j).flag key = .ok b) : (j.field key).truthy = b := by
  cases j with
  | obj fields =>
    simp only [layer_json_obj, Layer.flag, Layer.optional, ok_bind, pure_eq_ok, Except.ok.injEq] at h
    rw [← h, Json.field, Json.get?]
    cases hv : Fields.get? key fields with
    | none => rfl
    | some v => cases v <;> rfl
  | _ => cases h

theorem hasType_json {fields : Fields Json} {type : String} (h : Fields.type? fields = some type) (t : String) :
    (layer (Json.obj fields)).hasType t = .ok (type == t) :=
  hasType_obj (Fields.get?_of_type? h) (layer_str type) t

theorem hasTypeIn_json {fields : Fields Json} {type : String} (h : Fields.type? fields = some type)
    (ts : List String) : (layer (Json.obj fields)).hasTypeIn ts = .ok (ts.contains type) :=
  hasTypeIn_obj (Fields.get?_of_type? h) (layer_str type) ts

/-! ## Notes -/

section Notes

variable (f : Layer (Annotated β) → β)

theorem annotateFields_eq_mapValues : ∀ fields : Fields Json,
    annotateFields f fields = Fields.mapValues (annotate f) fields
  | [] => rfl
  | (_, _) :: rest => by rw [annotateFields, annotateFields_eq_mapValues rest, Fields.mapValues_cons]

theorem note_obj (fields : Fields Json) :
    note f (.obj fields) = f (.obj (Fields.mapValues (annotate f) fields)) := by
  rw [← annotateFields_eq_mapValues]; rfl

theorem note_annotate (j : Json) : (annotate f j).note = note f j := rfl

theorem get?_type_annotated {fields : Fields Json} {type : String} (h : Fields.type? fields = some type) :
    Fields.get? "type" (Fields.mapValues (annotate f) fields) = some (annotate f (.str type)) := by
  rw [Fields.get?_mapValues, Fields.get?_of_type? h]; rfl

theorem isNode_annotated {fields : Fields Json} {type : String} (h : Fields.type? fields = some type) :
    (Layer.obj (Fields.mapValues (annotate f) fields)).isNode = true := by
  simp [Layer.isNode, Fields.get?_of_type? h]

variable [Inhabited β]

theorem layer_annotate_str (s : String) : layer (annotate f (.str s)) = .str s := rfl

theorem layer_annotate_arr (items : List Json) :
    layer (annotate f (.arr items)) = .arr (items.map (annotate f)) := by
  rw [← annotateItems_eq_map]; rfl

theorem layer_annotate_obj (fields : Fields Json) :
    layer (annotate f (.obj fields)) = .obj (Fields.mapValues (annotate f) fields) := by
  rw [← annotateFields_eq_mapValues]; rfl

theorem hasType_annotated {fields : Fields Json} {type : String} (h : Fields.type? fields = some type)
    (t : String) : (Layer.obj (Fields.mapValues (annotate f) fields)).hasType t = .ok (type == t) :=
  hasType_obj (get?_type_annotated f h) (layer_annotate_str f type) t

/-- A node under a key is found with its note. -/
theorem optional_annotated {fields : Fields Json} {key : String} {v : Fields Json}
    (h : Fields.get? key fields = some (.obj v)) :
    (Layer.obj (Fields.mapValues (annotate f) fields)).optional key = .ok (some (annotate f (.obj v))) := by
  simp [Layer.optional, h, layer_annotate_obj, Layer.isNull]

/-- A list under a key is found with its notes. -/
theorem elementsOf_annotated {fields : Fields Json} {key : String} {items : List Json}
    (h : Fields.get? key fields = some (.arr items)) :
    (Layer.obj (Fields.mapValues (annotate f) fields)).elementsOf key = .ok (items.map (annotate f)) := by
  have hfound : (Layer.obj (Fields.mapValues (annotate f) fields)).optional key =
      .ok (some (annotate f (.arr items))) := by
    simp [Layer.optional, h, layer_annotate_arr, Layer.isNull]
  rw [Layer.elementsOf, hfound]
  cases items <;> simp [layer_annotate_arr, Layer.truthy]

end Notes

end Json

/-! ## Bound names -/

theorem namesOf_singleton (p : Annotated (Except Fault (List α))) : namesOf [p] = p.note := by
  cases h : p.note <;> simp [namesOf, h]

section Names

variable {fields : Fields Json}

theorem bindingNames_identifier {s : String} (htype : Fields.type? fields = some "Identifier")
    (hname : Fields.get? "name" fields = some (.str s)) : bindingNames (.obj fields) = .ok [.str s] := by
  rw [bindingNames, Json.note_obj, nameRule]
  simp [Json.isNode_annotated _ htype, Json.hasType_annotated _ htype, Layer.require, hname, Json.source_annotate]

theorem bindingNames_default {v : Fields Json} (htype : Fields.type? fields = some "AssignmentPattern")
    (hleft : Fields.get? "left" fields = some (.obj v)) : bindingNames (.obj fields) = bindingNames (.obj v) := by
  rw [bindingNames, Json.note_obj, nameRule]
  simp [Json.isNode_annotated _ htype, Json.hasType_annotated _ htype, Json.optional_annotated _ hleft,
    namesOf_singleton, Json.note_annotate, bindingNames]

theorem bindingNames_rest {v : Fields Json} (htype : Fields.type? fields = some "RestElement")
    (harg : Fields.get? "argument" fields = some (.obj v)) : bindingNames (.obj fields) = bindingNames (.obj v) := by
  rw [bindingNames, Json.note_obj, nameRule]
  simp [Json.isNode_annotated _ htype, Json.hasType_annotated _ htype, Json.optional_annotated _ harg,
    namesOf_singleton, Json.note_annotate, bindingNames]

theorem bindingNames_array {items : List Json} (htype : Fields.type? fields = some "ArrayPattern")
    (helements : Fields.get? "elements" fields = some (.arr items)) :
    bindingNames (.obj fields) = allBindingNames items := by
  rw [bindingNames, Json.note_obj, nameRule]
  simp [Json.isNode_annotated _ htype, Json.hasType_annotated _ htype, Json.elementsOf_annotated _ helements,
    namesOf, allBindingNames, Function.comp_def]
  rfl

/-- The names bound by one member of an object pattern, from the plain member. -/
def memberBinding (p : Json) : Except Fault (List Json) := memberNames (p.annotate nameRule)

theorem bindingNames_object {items : List Json} (htype : Fields.type? fields = some "ObjectPattern")
    (hprops : Fields.get? "properties" fields = some (.arr items)) :
    bindingNames (.obj fields) = List.flatten <$> items.mapM memberBinding := by
  rw [bindingNames, Json.note_obj, nameRule]
  simp [Json.isNode_annotated _ htype, Json.hasType_annotated _ htype, Json.elementsOf_annotated _ hprops,
    Function.comp_def, map_eq_pure_bind]
  rfl

/-- Types of patterns that bind names. -/
def bindingTypes : List String :=
  ["Identifier", "AssignmentPattern", "RestElement", "ArrayPattern", "ObjectPattern"]

theorem bindingNames_other {type : String} (htype : Fields.type? fields = some type) (h : type ∉ bindingTypes) :
    bindingNames (.obj fields) = .ok [] := by
  simp only [bindingTypes, List.mem_cons, List.not_mem_nil, or_false, not_or] at h
  rw [bindingNames, Json.note_obj, nameRule]
  simp [Json.isNode_annotated _ htype, Json.hasType_annotated _ htype, h]

theorem memberBinding_rest (htype : Fields.type? fields = some "RestElement") :
    memberBinding (.obj fields) = bindingNames (.obj fields) := by
  have htype' : (Layer.obj (Fields.mapValues (Json.annotate nameRule) fields)).optional "type" =
      .ok (some (Json.annotate nameRule (.str "RestElement"))) := by
    simp [Layer.optional, Fields.get?_of_type? htype, Json.layer_annotate_str, Layer.isNull]
  rw [memberBinding, memberNames, Json.layer_annotate_obj, htype']
  simp [Json.layer_annotate_str, Layer.isString, Json.note_annotate, bindingNames]

theorem memberBinding_property {type : String} {v : Fields Json} (htype : Fields.type? fields = some type)
    (hrest : type ≠ "RestElement") (hvalue : Fields.get? "value" fields = some (.obj v)) :
    memberBinding (.obj fields) = bindingNames (.obj v) := by
  have htype' : (Layer.obj (Fields.mapValues (Json.annotate nameRule) fields)).optional "type" =
      .ok (some (Json.annotate nameRule (.str type))) := by
    simp [Layer.optional, Fields.get?_of_type? htype, Json.layer_annotate_str, Layer.isNull]
  rw [memberBinding, memberNames, Json.layer_annotate_obj, htype']
  simp [Json.layer_annotate_str, Layer.isString, hrest, Json.optional_annotated _ hvalue, namesOf_singleton,
    Json.note_annotate, bindingNames]

/-! ## Roots and targets -/

/-- The variable at the root of a chain of members. -/
def rootOf (j : Json) : Except Fault (Option Target) := j.note rootRule

theorem rootOf_member {v : Json} (htype : Fields.type? fields = some "MemberExpression")
    (hobject : Fields.get? "object" fields = some v) : rootOf (.obj fields) = rootOf v := by
  rw [rootOf, Json.note_obj, rootRule]
  simp [Json.hasType_annotated _ htype, Layer.require, hobject, Json.note_annotate, rootOf]

theorem rootOf_this (htype : Fields.type? fields = some "ThisExpression") :
    rootOf (.obj fields) = .ok (some ⟨.str "this", .thisNode⟩) := by
  rw [rootOf, Json.note_obj, rootRule]
  simp [Json.hasType_annotated _ htype]

theorem rootOf_identifier {s : Json} (htype : Fields.type? fields = some "Identifier")
    (hname : Fields.get? "name" fields = some s) : rootOf (.obj fields) = .ok (some (.named s)) := by
  rw [rootOf, Json.note_obj, rootRule]
  simp [Json.hasType_annotated _ htype, Layer.require, hname, Json.source_annotate]

theorem rootOf_other {type : String} (htype : Fields.type? fields = some type)
    (h : type ∉ ["MemberExpression", "ThisExpression", "Identifier"]) : rootOf (.obj fields) = .ok none := by
  simp only [List.mem_cons, List.not_mem_nil, or_false, not_or] at h
  rw [rootOf, Json.note_obj, rootRule]
  simp [Json.hasType_annotated _ htype, h]

theorem targetsOf_obj {type : String} (htype : Fields.type? fields = some type) :
    targetsOf (.obj fields) =
      if type = "Identifier" then (fun n => [Target.named n]) <$> (layer (Json.obj fields)).require "name"
      else if type = "MemberExpression" then Option.toList <$> rootOf (.obj fields)
      else if type ∈ ["ObjectPattern", "ArrayPattern", "AssignmentPattern", "RestElement"] then
        List.map Target.named <$> bindingNames (.obj fields)
      else .ok [] := by
  have hnode : (layer (Json.obj fields)).isNode = true := Json.isNode_of_type? (j := .obj fields) htype
  rw [targetsOf]
  simp only [hnode, Json.hasType_json htype, Json.hasTypeIn_json htype, ok_bind, beq_iff_eq, Bool.not_true,
    Bool.false_eq_true, if_false, List.contains_iff_mem, pure_eq_ok, rootOf]
  rfl

theorem writtenTargets_assignment {v : Json} (htype : Fields.type? fields = some "AssignmentExpression")
    (hleft : Fields.get? "left" fields = some v) : writtenTargets (.obj fields) = targetsOf v := by
  rw [writtenTargets, Json.note_obj, writtenRule]
  simp [Json.isNode_annotated _ htype, Json.hasType_annotated _ htype, Layer.require, hleft, Json.source_annotate]

theorem writtenTargets_update {v : Json} (htype : Fields.type? fields = some "UpdateExpression")
    (harg : Fields.get? "argument" fields = some v) : writtenTargets (.obj fields) = targetsOf v := by
  rw [writtenTargets, Json.note_obj, writtenRule]
  simp [Json.isNode_annotated _ htype, Json.hasType_annotated _ htype, Layer.require, harg, Json.source_annotate]

theorem writtenTargets_sequence {items : List Json} (htype : Fields.type? fields = some "SequenceExpression")
    (hitems : Fields.get? "expressions" fields = some (.arr items)) :
    writtenTargets (.obj fields) = List.flatten <$> items.mapM writtenTargets := by
  rw [writtenTargets, Json.note_obj, writtenRule]
  simp [Json.isNode_annotated _ htype, Json.hasType_annotated _ htype, Layer.require, hitems,
    Json.layer_annotate_arr, namesOf, Function.comp_def, map_eq_pure_bind]
  rfl

theorem writtenTargets_other {type : String} (htype : Fields.type? fields = some type)
    (h : type ∉ ["AssignmentExpression", "UpdateExpression", "SequenceExpression"]) :
    writtenTargets (.obj fields) = .ok [] := by
  simp only [List.mem_cons, List.not_mem_nil, or_false, not_or] at h
  rw [writtenTargets, Json.note_obj, writtenRule]
  simp [Json.isNode_annotated _ htype, Json.hasType_annotated _ htype, h]

/-! ## Left sides -/

theorem leftName_member {p : Json} (htype : Fields.type? fields = some "MemberExpression")
    (hproperty : Fields.get? "property" fields = some p) :
    leftName (.obj fields) = (do
      if ← (layer (Json.obj fields)).flag "computed" then return none
      else return some (← (layer p).require "name")) := by
  rw [leftName, Json.hasType_json htype, Json.hasType_json htype, layer_json_obj, Layer.require_of_get? hproperty]
  rfl

theorem leftName_other {type : String} (htype : Fields.type? fields = some type) (h : type ≠ "MemberExpression") :
    leftName (.obj fields) =
      if type = "Identifier" then some <$> (layer (Json.obj fields)).require "name" else .ok none := by
  rw [leftName, Json.hasType_json htype, Json.hasType_json htype, beq_false_of_ne h]
  by_cases hid : type = "Identifier"
  · subst hid
    simp [map_eq_pure_bind]
  · rw [beq_false_of_ne hid, if_neg hid]
    rfl

end Names

end ScriptTrace
