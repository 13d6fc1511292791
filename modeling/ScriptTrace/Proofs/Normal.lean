import ScriptTrace.Proofs.Erasing
import ScriptTrace.Proofs.Preservation

/-!
# Programs up to how they are written

Instrumenting writes some nodes in another way: branches and bodies become blocks, an arrow function
returns its expression, a `return` always has an argument, and one method prints all output. Where code
comes from, and how an arrow function was written, does not matter either.

* `Json.normalise` : a value in which these nodes are written in one way;
* `Json.field_normalise` : fields of a normalised node;
* `Json.isProbe_normalise` : writing a value in one way neither makes nor unmakes a probe;
* `Json.normalise_node` : nodes whose fields are the same up to how they are written.
-/

namespace ScriptTrace

open Probe Rewriting

namespace Json

/-! ## One way to write a value -/

/-- The methods of the console that print. -/
def isConsoleMethod (callee : Json) : Bool :=
  callee.type? == some "MemberExpression" && !(callee.field "computed").truthy &&
    isIdentifier (· == "console") (callee.field "object") &&
    ((callee.field "property").field "name").string?.any ["log", "info", "warn", "error", "debug"].contains

/-- A body that answers an expression, as a block. -/
def answered (body : Json) : Json :=
  if body.type? = some "BlockStatement" then body
  else blockOf [.obj [("type", .str "ReturnStatement"), ("argument", body)]]

/-- One way to write what a field holds. -/
def normalField (type key : String) (v : Json) : Json :=
  if type = "ReturnStatement" ∧ key = "argument" ∧ v.isNull then .voidZero
  else if type = "IfStatement" ∧ key ∈ ["consequent", "alternate"] then asBlock v
  else if type ∈ "ForStatement" :: loopTypes ∧ key = "body" then asBlock v
  else if type = "ArrowFunctionExpression" ∧ key = "body" then answered v
  else if type = "CallExpression" ∧ key = "callee" ∧ isConsoleMethod v then consoleLog
  else v

/-- Fields that do not tell what a node does. -/
def isIgnored (type key : String) : Bool :=
  key == "loc" || key == "range" || type == "ArrowFunctionExpression" && key == "expression"

/-- The fields of a node with the argument of a `return`. -/
def withArgument {α : Type} (type : String) (nothing : α) (fields : Fields α) : Fields α :=
  if type = "ReturnStatement" ∧ Fields.get? "argument" fields = none then fields ++ [("argument", nothing)] else fields

def normalFields (type : String) (fields : Fields Json) : Fields Json :=
  ((withArgument type .null fields).filter fun f => !isIgnored type f.1).map fun f => (f.1, normalField type f.1 f.2)

def normalNode (fields : Fields Json) : Json :=
  match Fields.type? fields with
  | some type => .obj (normalFields type fields)
  | none => .obj fields

mutual

/-- A value written in one way. -/
def normalise : Json → Json
  | .arr items => .arr (normaliseItems items)
  | .obj fields => normalNode (normaliseMembers fields)
  | j => j

def normaliseItems : List Json → List Json
  | [] => []
  | x :: xs => normalise x :: normaliseItems xs

def normaliseMembers : List (String × Json) → List (String × Json)
  | [] => []
  | (k, x) :: xs => (k, normalise x) :: normaliseMembers xs

end

theorem normaliseItems_eq_map (items : List Json) : normaliseItems items = items.map normalise := by
  induction items with
  | nil => rfl
  | cons x xs ih => rw [normaliseItems, ih, List.map_cons]

theorem normaliseMembers_eq_mapValues : ∀ fields : Fields Json, normaliseMembers fields = Fields.mapValues normalise fields
  | [] => rfl
  | (_, _) :: rest => by rw [normaliseMembers, normaliseMembers_eq_mapValues rest, Fields.mapValues_cons]

@[simp] theorem normalise_arr (items : List Json) : normalise (.arr items) = .arr (items.map normalise) := by
  rw [normalise, normaliseItems_eq_map]

theorem normalise_obj (fields : Fields Json) : normalise (.obj fields) = normalNode (Fields.mapValues normalise fields) := by
  rw [normalise, normaliseMembers_eq_mapValues]

/-! ## Fields of a normalised node -/

section Fields

variable {type key : String} {fields : Fields Json}

theorem get?_filter {α : Type} (p : String → Bool) (key : String) (fields : Fields α) :
    Fields.get? key (fields.filter fun f => p f.1) = if p key then Fields.get? key fields else none := by
  induction fields with
  | nil => simp [Fields.get?]
  | cons f rest ih =>
    obtain ⟨k, v⟩ := f
    by_cases hk : k = key
    · subst hk
      cases hp : p k <;> simp [hp, Fields.get?, ih]
    · cases hp : p k <;> simp [hp, Fields.get?, ih, hk]

theorem get?_normalFields : Fields.get? key (normalFields type fields) =
    if isIgnored type key then none
    else (Fields.get? key (withArgument type .null fields)).map (normalField type key) := by
  rw [normalFields, Fields.get?_mapWithKey (fun k v => normalField type k v), get?_filter fun k => !isIgnored type k]
  cases isIgnored type key <;> rfl

theorem names_normalFields : Fields.names (normalFields type fields) =
    (Fields.names (withArgument type .null fields)).filter fun k => !isIgnored type k := by
  rw [normalFields, Fields.names_mapWithKey (fun k v => normalField type k v), Fields.names, Fields.names, List.filter_map]
  rfl

theorem get?_withArgument {α : Type} {nothing : α} {fields : Fields α} (h : ¬ (type = "ReturnStatement" ∧ key = "argument")) :
    Fields.get? key (withArgument type nothing fields) = Fields.get? key fields := by
  unfold withArgument
  split
  · next hc =>
    have hkey : "argument" ≠ key := fun e => h ⟨hc.1, e.symm⟩
    rw [Fields.get?_append]
    cases Fields.get? key fields with
    | some v => rfl
    | none => simp [Fields.get?, hkey]
  · rfl

theorem mapValues_withArgument {α β : Type} (f : α → β) (nothing : α) (fields : Fields α) :
    Fields.mapValues f (withArgument type nothing fields) = withArgument type (f nothing) (Fields.mapValues f fields) := by
  simp only [withArgument, Fields.get?_mapValues, Option.map_eq_none_iff]
  split
  · simp [Fields.mapValues]
  · rfl

/-- Most fields are written as they are. -/
theorem normalField_eq_self (h : ¬ (type = "ReturnStatement" ∧ key = "argument"))
    (hkey : key ∉ ["consequent", "alternate", "body", "callee"]) (v : Json) : normalField type key v = v := by
  simp only [List.mem_cons, List.not_mem_nil, or_false, not_or] at hkey
  have hreturn : ¬ (type = "ReturnStatement" ∧ key = "argument" ∧ v.isNull) := fun hc => h ⟨hc.1, hc.2.1⟩
  simp [normalField, hreturn, hkey]

theorem isIgnored_eq_false (h : key ∉ ["loc", "range", "expression"]) (type : String) : isIgnored type key = false := by
  simp only [List.mem_cons, List.not_mem_nil, or_false, not_or] at h
  simp [isIgnored, h]

end Fields

@[simp] theorem normalise_null : normalise .null = .null := rfl

@[simp] theorem normalise_str (s : String) : normalise (.str s) = .str s := rfl

@[simp] theorem string?_normalise (j : Json) : (normalise j).string? = j.string? := by
  cases j with
  | obj fields =>
    rw [normalise_obj, normalNode]
    split <;> rfl
  | _ => rfl

theorem type?_mapValues (fields : Fields Json) : Fields.type? (Fields.mapValues normalise fields) = Fields.type? fields := by
  rw [Fields.type?, Fields.get?_mapValues, Fields.type?]
  cases Fields.get? "type" fields <;> simp

theorem normalise_of_type? {fields : Fields Json} (type : String) (h : Fields.type? fields = some type) :
    normalise (.obj fields) = .obj (normalFields type (Fields.mapValues normalise fields)) := by
  rw [normalise_obj, normalNode, type?_mapValues, h]

theorem normalise_of_untyped {fields : Fields Json} (h : Fields.type? fields = none) :
    normalise (.obj fields) = .obj (Fields.mapValues normalise fields) := by
  rw [normalise_obj, normalNode, type?_mapValues, h]

theorem items_normalise (j : Json) : (normalise j).items = j.items.map normalise := by
  cases j with
  | arr items => rw [normalise_arr]; rfl
  | obj fields =>
    rw [normalise_obj, normalNode]
    split <;> rfl
  | _ => rfl

@[simp] theorem type?_normalise (j : Json) : (normalise j).type? = j.type? := by
  cases j with
  | obj fields =>
    cases htype : Fields.type? fields with
    | some type =>
      have hget : Fields.get? "type" (normalFields type (Fields.mapValues normalise fields)) = some (.str type) := by
        rw [get?_normalFields, if_neg (by rw [isIgnored_eq_false (by decide)]; decide), get?_withArgument (by simp),
          Fields.get?_mapValues, Fields.get?_of_type? htype, Option.map_some, normalise_str, Option.map_some,
          normalField_eq_self (by simp) (by decide)]
      rw [normalise_of_type? _ htype, Json.type?, Json.type?, htype]
      exact Fields.type?_of_get? hget
    | none => rw [normalise_of_untyped htype, Json.type?, Json.type?, type?_mapValues]
  | _ => rfl

@[simp] theorem isNode_normalise (j : Json) : (normalise j).isNode = j.isNode := by
  cases j with
  | obj fields =>
    cases htype : Fields.type? fields with
    | some type =>
      have hj : (Json.obj fields).type? = some type := htype
      rw [isNode_of_type? hj, isNode_of_type? (type?_normalise (.obj fields) ▸ hj)]
    | none =>
      rw [normalise_of_untyped htype]
      change (Fields.get? "type" (Fields.mapValues normalise fields)).isSome = (Fields.get? "type" fields).isSome
      rw [Fields.get?_mapValues, Option.isSome_map]
  | _ => rfl

theorem field_normalise_of_type {fields : Fields Json} {type key : String} (htype : Fields.type? fields = some type)
    (hignored : isIgnored type key = false) (hargument : ¬ (type = "ReturnStatement" ∧ key = "argument")) :
    (normalise (.obj fields)).field key =
      ((Fields.get? key fields).map fun v => normalField type key (normalise v)).getD .null := by
  rw [normalise_of_type? _ htype, Json.field, Json.get?, get?_normalFields, if_neg (by rw [hignored]; decide),
    get?_withArgument hargument, Fields.get?_mapValues, Option.map_map]
  rfl

/-- A field that is written as it is. -/
theorem field_normalise_of_plain {fields : Fields Json} {type key : String} (htype : Fields.type? fields = some type)
    (hignored : isIgnored type key = false) (hargument : ¬ (type = "ReturnStatement" ∧ key = "argument"))
    (hkey : key ∉ ["consequent", "alternate", "body", "callee"]) :
    (normalise (.obj fields)).field key = normalise ((Json.obj fields).field key) := by
  rw [field_normalise_of_type htype hignored hargument, Json.field, Json.get?]
  cases Fields.get? key fields with
  | none => rfl
  | some v => exact normalField_eq_self hargument hkey _

/-- A field that is written as it is whatever the type of the node. -/
theorem field_normalise (key : String)
    (hkey : key ∉ ["loc", "range", "expression", "argument", "consequent", "alternate", "body", "callee"]) (j : Json) :
    (normalise j).field key = normalise (j.field key) := by
  cases j with
  | obj fields =>
    simp only [List.mem_cons, List.not_mem_nil, or_false, not_or] at hkey
    cases htype : Fields.type? fields with
    | some type =>
      exact field_normalise_of_plain htype (isIgnored_eq_false (by simp [hkey]) type) (by simp [hkey]) (by simp [hkey])
    | none =>
      rw [normalise_of_untyped htype, Json.field, Json.get?, Fields.get?_mapValues, Json.field, Json.get?]
      cases Fields.get? key fields <;> rfl
  | _ => rfl

/-! ## Probes -/

theorem isIdentifier_normalise (p : String → Bool) (j : Json) : isIdentifier p (normalise j) = isIdentifier p j := by
  rw [isIdentifier, isIdentifier, type?_normalise, field_normalise _ (by decide), string?_normalise]

theorem isIdentifier_eq_false {p : String → Bool} {j : Json} (h : j.type? ≠ some "Identifier") : isIdentifier p j = false := by
  rw [isIdentifier, beq_false_of_ne h, Bool.false_and]

/-- A method of the console is not known by a single name. -/
theorem isIdentifier_normalField (name : String) (v : Json) :
    isIdentifier (· == name) (normalField "CallExpression" "callee" v) = isIdentifier (· == name) v := by
  have hother : ∀ w, normalField "CallExpression" "callee" w = if isConsoleMethod w then consoleLog else w := fun w => by
    simp [normalField, loopTypes]
  rw [hother]
  split
  · next h =>
    simp only [isConsoleMethod, Bool.and_eq_true, beq_iff_eq] at h
    rw [isIdentifier_eq_false (j := v) (by rw [h.1.1.1]; decide)]
    rfl
  · rfl

theorem calls_normalise (name : String) (j : Json) : calls name (normalise j) = calls name j := by
  rw [calls, calls, type?_normalise]
  by_cases htype : j.type? = some "CallExpression"
  · cases j with
    | obj fields =>
      rw [field_normalise_of_type htype rfl (by decide), Json.field, Json.get?]
      cases Fields.get? "callee" fields with
      | none => rfl
      | some v =>
        simp only [Option.map_some, Option.getD_some]
        rw [isIdentifier_normalField, isIdentifier_normalise]
    | _ => cases htype
  · rw [beq_false_of_ne htype, Bool.false_and, Bool.false_and]

theorem isRecord_normalise (j : Json) : isRecord (normalise j) = isRecord j := by
  rw [isRecord, isRecord, type?_normalise]
  by_cases htype : j.type? = some "ExpressionStatement"
  · cases j with
    | obj fields => rw [field_normalise_of_plain htype rfl (by decide) (by decide), calls_normalise]
    | _ => cases htype
  · rw [beq_false_of_ne htype, Bool.false_and, Bool.false_and]

/-- Writing a value in one way neither makes nor unmakes a probe. -/
theorem isProbe_normalise (j : Json) : isProbe (normalise j) = isProbe j := by
  have hinit : isInitDeclarator (normalise j) = isInitDeclarator j := by
    rw [isInitDeclarator, isInitDeclarator, type?_normalise, field_normalise _ (by decide), isIdentifier_normalise]
  have hguard : isGuard (normalise j) = isGuard j := by
    rw [isGuard, isGuard, type?_normalise, field_normalise _ (by decide), field_normalise _ (by decide), isIdentifier_normalise]
  rw [isProbe, isProbe, isRecord_normalise, hinit, hguard]

/-- A value that is written like one without reserved names is not taken for a probe. -/
theorem Unreserved.isProbe_of_normalise {j k : Json} (h : j.Unreserved) (hjk : normalise k = normalise j) :
    Json.isProbe k = false := by
  rw [← isProbe_normalise, hjk, isProbe_normalise]
  exact h.isProbe

theorem Unreserved.calls_of_normalise {j k : Json} (h : j.Unreserved) (hjk : normalise k = normalise j) {name : String}
    (hname : isReserved name = true) : Json.calls name k = false := by
  rw [← calls_normalise, hjk, calls_normalise]
  exact h.calls hname

/-! ## Nodes -/

theorem nodup_withArgument {type : String} {fields : Fields Json} (hnd : (Fields.names fields).Nodup) :
    (Fields.names (withArgument type Json.null fields)).Nodup := by
  unfold withArgument
  split
  · next h =>
    rw [Fields.names, List.map_append, List.nodup_append]
    refine ⟨hnd, by simp, fun key hkey other hother => ?_⟩
    rintro rfl
    obtain rfl : key = "argument" := by simpa using hother
    exact Fields.get?_eq_none.1 h.2 hkey
  · exact hnd

/-- Two nodes of a type are written in the same way if their fields are. -/
theorem normalise_node {type : String} {fields out : Fields Json} (htype : Fields.type? fields = some type)
    (htype' : Fields.type? out = some type) (hnd : (Fields.names fields).Nodup)
    (hnames : (Fields.names (withArgument type Json.null out)).filter (fun k => !isIgnored type k) =
      (Fields.names (withArgument type Json.null fields)).filter fun k => !isIgnored type k)
    (hkeys : ∀ key v w, isIgnored type key = false → Fields.get? key (withArgument type .null fields) = some v →
      Fields.get? key (withArgument type .null out) = some w →
        normalField type key (normalise w) = normalField type key (normalise v)) :
    normalise (.obj out) = normalise (.obj fields) := by
  have hmap (fields : Fields Json) : withArgument type .null (Fields.mapValues normalise fields) =
      Fields.mapValues normalise (withArgument type .null fields) := (mapValues_withArgument normalise .null fields).symm
  rw [normalise_of_type? _ htype, normalise_of_type? _ htype']
  refine congrArg Json.obj (Fields.ext ?_ ?_ fun key => ?_)
  · simp only [names_normalFields, hmap, Fields.names_mapValues, hnames]
  · simp only [names_normalFields, hmap, Fields.names_mapValues, hnames]
    exact (nodup_withArgument hnd).sublist List.filter_sublist
  · rw [get?_normalFields, get?_normalFields, hmap, hmap, Fields.get?_mapValues, Fields.get?_mapValues]
    cases hignored : isIgnored type key with
    | true => rfl
    | false =>
      -- a name that counts is there in both
      have hmem : key ∈ Fields.names (withArgument type Json.null out) ↔ key ∈ Fields.names (withArgument type Json.null fields) := by
        have := congrArg (key ∈ ·) hnames
        simpa [List.mem_filter, hignored] using this
      rw [if_neg (by decide), if_neg (by decide)]
      cases hv : Fields.get? key (withArgument type .null fields) with
      | none => rw [Fields.get?_eq_none.2 fun hm => Fields.get?_eq_none.1 hv (hmem.1 hm)]
      | some v =>
        obtain ⟨w, hw⟩ := Fields.exists_get? (hmem.2 (Fields.mem_names_of_get? hv))
        rw [hw, Option.map_some, Option.map_some, Option.map_some, Option.map_some, hkeys key v w hignored hv hw]

end Json

end ScriptTrace
