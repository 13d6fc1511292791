import ScriptTrace.Proofs.NodeReading

/-!
# The targets of assignments

An assignment writes to the leaves of its target: names, and members at the end of a chain that begins with a name,
with `this`, or with something else. A chain by itself is reported by its root. Of a pattern only the names are
reported, since a pattern is read as one that declares, and the chains among its leaves declare nothing.

* `Leaf`, `Leaves` : what a target is built of, in source order; `Writes` : the targets in a nested sequence;
* `Leaves.bindingNames` : the names that a target binds are the names among its leaves;
* `targetsOf_leaves` : what is reported for every target, and for every sequence.
-/

namespace ScriptTrace

/-! ## Leaves -/

/-- What a chain of members begins with. -/
inductive ChainRoot where
  | name (text : String)
  | this
  | other
  deriving DecidableEq, Repr

/-- A place that an assignment writes to. -/
inductive Leaf where
  | name (text : String)
  | member (root : ChainRoot)
  deriving DecidableEq, Repr

def ChainRoot.target? : ChainRoot → Option Target
  | name text => some (.named (.str text))
  | this => some ⟨.str "this", .thisNode⟩
  | other => none

/-- What is to be reported for a leaf. -/
def Leaf.target? : Leaf → Option Target
  | name text => some (.named (.str text))
  | member root => root.target?

def Leaf.isName : Leaf → Bool
  | name _ => true
  | member _ => false

/-- The chain of members begins with this root. -/
inductive HasRoot : Json → ChainRoot → Prop
  | member {fields : Fields Json} {object : Json} {root : ChainRoot} : Fields.type? fields = some "MemberExpression" →
    Fields.get? "object" fields = some object → HasRoot object root → HasRoot (.obj fields) root
  | name {fields : Fields Json} {text : String} : Fields.type? fields = some "Identifier" →
    Fields.get? "name" fields = some (.str text) → HasRoot (.obj fields) (.name text)
  | this {fields : Fields Json} : Fields.type? fields = some "ThisExpression" → HasRoot (.obj fields) .this
  | other {fields : Fields Json} {type : String} : Fields.type? fields = some type →
    type ∉ ["MemberExpression", "ThisExpression", "Identifier"] → HasRoot (.obj fields) .other

mutual

/-- The target of an assignment is built of these leaves, in source order. -/
inductive Leaves : Json → List Leaf → Prop
  | name {fields : Fields Json} {text : String} : Fields.type? fields = some "Identifier" →
    Fields.get? "name" fields = some (.str text) → Leaves (.obj fields) [.name text]
  | member {fields : Fields Json} {root : ChainRoot} : Fields.type? fields = some "MemberExpression" →
    HasRoot (.obj fields) root → Leaves (.obj fields) [.member root]
  | withDefault {fields : Fields Json} {target : Json} {leaves : List Leaf} :
    Fields.type? fields = some "AssignmentPattern" → Fields.get? "left" fields = some target → Leaves target leaves →
    Leaves (.obj fields) leaves
  | rest {fields : Fields Json} {target : Json} {leaves : List Leaf} : Fields.type? fields = some "RestElement" →
    Fields.get? "argument" fields = some target → Leaves target leaves → Leaves (.obj fields) leaves
  | array {fields : Fields Json} {elements : List Json} {leaves : List Leaf} :
    Fields.type? fields = some "ArrayPattern" → Fields.get? "elements" fields = some (.arr elements) →
    ElementLeaves elements leaves → Leaves (.obj fields) leaves
  | object {fields : Fields Json} {members : List Json} {leaves : List Leaf} :
    Fields.type? fields = some "ObjectPattern" → Fields.get? "properties" fields = some (.arr members) →
    MemberLeaves members leaves → Leaves (.obj fields) leaves

/-- The elements of an array pattern, with holes. -/
inductive ElementLeaves : List Json → List Leaf → Prop
  | nil : ElementLeaves [] []
  | hole {elements : List Json} {leaves : List Leaf} : ElementLeaves elements leaves →
    ElementLeaves (.null :: elements) leaves
  | item {target : Json} {elements : List Json} {first leaves : List Leaf} : Leaves target first →
    ElementLeaves elements leaves → ElementLeaves (target :: elements) (first ++ leaves)

/-- The members of an object pattern: targets under keys, and the rest. -/
inductive MemberLeaves : List Json → List Leaf → Prop
  | nil : MemberLeaves [] []
  | property {fields : Fields Json} {target : Json} {members : List Json} {first leaves : List Leaf} :
    Fields.type? fields = some "Property" → Fields.get? "value" fields = some target → Leaves target first →
    MemberLeaves members leaves → MemberLeaves (.obj fields :: members) (first ++ leaves)
  | rest {fields : Fields Json} {target : Json} {members : List Json} {first leaves : List Leaf} :
    Fields.type? fields = some "RestElement" → Fields.get? "argument" fields = some target → Leaves target first →
    MemberLeaves members leaves → MemberLeaves (.obj fields :: members) (first ++ leaves)

end

mutual

/-- The assignments and updates that an expression is a sequence of write to these targets, in source order. -/
inductive Writes : Json → List Json → Prop
  | assignment {fields : Fields Json} {target : Json} : Fields.type? fields = some "AssignmentExpression" →
    Fields.get? "left" fields = some target → Writes (.obj fields) [target]
  | update {fields : Fields Json} {target : Json} : Fields.type? fields = some "UpdateExpression" →
    Fields.get? "argument" fields = some target → Writes (.obj fields) [target]
  | sequence {fields : Fields Json} {items targets : List Json} : Fields.type? fields = some "SequenceExpression" →
    Fields.get? "expressions" fields = some (.arr items) → WritesEach items targets → Writes (.obj fields) targets
  | other {fields : Fields Json} {type : String} : Fields.type? fields = some type →
    type ∉ ["AssignmentExpression", "UpdateExpression", "SequenceExpression"] → Writes (.obj fields) []

/-- The same for the items of a sequence. -/
inductive WritesEach : List Json → List Json → Prop
  | nil : WritesEach [] []
  | cons {item : Json} {items targets more : List Json} : Writes item targets → WritesEach items more →
    WritesEach (item :: items) (targets ++ more)

end

/-! ## Names -/

theorem Leaves.exists_fields {target : Json} {leaves : List Leaf} (h : Leaves target leaves) :
    ∃ fields, target = .obj fields := by
  cases h <;> exact ⟨_, rfl⟩

/-- The names among leaves. -/
def namesAmong (leaves : List Leaf) : List Json :=
  leaves.filterMap fun
    | .name text => some (.str text)
    | .member _ => none

theorem namesAmong_append (leaves more : List Leaf) : namesAmong (leaves ++ more) = namesAmong leaves ++ namesAmong more :=
  List.filterMap_append

theorem bindingNames_null : bindingNames .null = .ok [] := rfl

theorem allBindingNames_cons {j : Json} {items : List Json} {names more : List Json} (hj : bindingNames j = .ok names)
    (hitems : allBindingNames items = .ok more) : allBindingNames (j :: items) = .ok (names ++ more) := by
  rw [allBindingNames] at hitems ⊢
  obtain ⟨lists, hlists, hmore⟩ := bind_eq_ok.1 hitems
  cases hmore
  rw [List.mapM_cons, hj, ok_bind, hlists]
  rfl

mutual

/-- The names that a target binds are the names among its leaves. -/
theorem Leaves.bindingNames : ∀ {target : Json} {leaves : List Leaf}, Leaves target leaves →
    bindingNames target = .ok (namesAmong leaves)
  | _, _, .name htype hname => bindingNames_identifier htype hname
  | _, _, .member htype _ => bindingNames_other htype (by decide)
  | _, _, .withDefault htype hleft h => by
    have ih := h.bindingNames
    obtain ⟨_, rfl⟩ := h.exists_fields
    rw [bindingNames_default htype hleft, ih]
  | _, _, .rest htype hargument h => by
    have ih := h.bindingNames
    obtain ⟨_, rfl⟩ := h.exists_fields
    rw [bindingNames_rest htype hargument, ih]
  | _, _, .array htype helements h => by
    rw [bindingNames_array htype helements, h.bindingNames]
  | _, _, .object htype hmembers h => by
    obtain ⟨lists, hlists, hleaves⟩ := h.bindingNames
    rw [bindingNames_object htype hmembers, hlists, ← hleaves]
    rfl

theorem ElementLeaves.bindingNames : ∀ {elements : List Json} {leaves : List Leaf}, ElementLeaves elements leaves →
    allBindingNames elements = .ok (namesAmong leaves)
  | _, _, .nil => rfl
  | _, _, .hole h => allBindingNames_cons bindingNames_null h.bindingNames
  | _, _, .item h hrest => by
    rw [namesAmong_append]
    exact allBindingNames_cons h.bindingNames hrest.bindingNames

theorem MemberLeaves.bindingNames : ∀ {members : List Json} {leaves : List Leaf}, MemberLeaves members leaves →
    ∃ lists, members.mapM memberBinding = .ok lists ∧ lists.flatten = namesAmong leaves
  | _, _, .nil => ⟨[], rfl, rfl⟩
  | _, _, .property htype hvalue h hrest => by
    have hnames := h.bindingNames
    obtain ⟨lists, hlists, hleaves⟩ := hrest.bindingNames
    obtain ⟨_, rfl⟩ := h.exists_fields
    rw [List.mapM_cons, memberBinding_property htype (by decide) hvalue, hnames, ok_bind, hlists]
    exact ⟨_, rfl, by rw [List.flatten_cons, hleaves, namesAmong_append]⟩
  | _, _, .rest htype hargument h hrest => by
    have hnames := h.bindingNames
    obtain ⟨lists, hlists, hleaves⟩ := hrest.bindingNames
    obtain ⟨_, rfl⟩ := h.exists_fields
    rw [List.mapM_cons, memberBinding_rest htype, bindingNames_rest htype hargument, hnames, ok_bind, hlists]
    exact ⟨_, rfl, by rw [List.flatten_cons, hleaves, namesAmong_append]⟩

end

/-! ## Targets -/

theorem HasRoot.rootOf {j : Json} {root : ChainRoot} (h : HasRoot j root) : rootOf j = .ok root.target? := by
  induction h with
  | member htype hobject _ ih => exact (rootOf_member htype hobject).trans ih
  | name htype hname => exact rootOf_identifier htype hname
  | this htype => exact rootOf_this htype
  | other htype h => exact rootOf_other htype h

/-- The leaves of a target that are reported: the root of a chain of members by itself, and else the names. -/
def Leaf.reported (target : Json) (leaves : List Leaf) : List Leaf :=
  if target.type? = some "MemberExpression" then leaves else leaves.filter Leaf.isName

/-- Names are reported as they are. -/
theorem targets_names (leaves : List Leaf) :
    (leaves.filter Leaf.isName).filterMap Leaf.target? = (namesAmong leaves).map Target.named := by
  induction leaves with
  | nil => rfl
  | cons leaf leaves ih =>
    cases leaf with
    | name text =>
      rw [List.filter_cons_of_pos rfl, List.filterMap_cons, ih]
      rfl
    | member root =>
      rw [List.filter_cons_of_neg (by simp [Leaf.isName]), ih]
      rfl

theorem Leaves.targetsOf {target : Json} {leaves : List Leaf} (h : Leaves target leaves) :
    targetsOf target = .ok ((Leaf.reported target leaves).filterMap Leaf.target?) := by
  have hnames := h.bindingNames
  obtain ⟨fields, rfl⟩ := h.exists_fields
  have hpattern {type : String} (htype : Fields.type? fields = some type)
      (hmem : type ∈ ["ObjectPattern", "ArrayPattern", "AssignmentPattern", "RestElement"])
      (hne : type ≠ "Identifier" ∧ type ≠ "MemberExpression") :
      ScriptTrace.targetsOf (.obj fields) = .ok ((Leaf.reported (.obj fields) leaves).filterMap Leaf.target?) := by
    have hmember : (Json.obj fields).type? ≠ some "MemberExpression" := fun h => hne.2 (Option.some.inj (htype.symm.trans h))
    rw [targetsOf_obj htype, if_neg hne.1, if_neg hne.2, if_pos hmem, hnames, Leaf.reported, if_neg hmember, targets_names]
    rfl
  cases h with
  | name htype hname =>
    have hmember : (Json.obj fields).type? ≠ some "MemberExpression" := fun h => absurd (htype.symm.trans h) (by decide)
    rw [targetsOf_obj htype, if_pos rfl, layer_json_obj, Layer.require_of_get? hname, Leaf.reported, if_neg hmember]
    rfl
  | @member _ root htype hroot =>
    have hmember : (Json.obj fields).type? = some "MemberExpression" := htype
    rw [targetsOf_obj htype, if_neg (by decide), if_pos rfl, hroot.rootOf, Leaf.reported, if_pos hmember]
    cases root <;> rfl
  | withDefault htype => exact hpattern htype (by decide) (by decide)
  | rest htype => exact hpattern htype (by decide) (by decide)
  | array htype => exact hpattern htype (by decide) (by decide)
  | object htype => exact hpattern htype (by decide) (by decide)

/-- Leaving out leaves changes nothing exactly when no one of them is to be reported. -/
theorem filterMap_filter_eq_iff {α β : Type} (keep : α → Bool) (f : α → Option β) (xs : List α) :
    (xs.filter keep).filterMap f = xs.filterMap f ↔ ∀ x ∈ xs, keep x = true ∨ f x = none := by
  induction xs with
  | nil => simp
  | cons x xs ih =>
    have hle : ((xs.filter keep).filterMap f).length ≤ (xs.filterMap f).length :=
      (List.filter_sublist.filterMap f).length_le
    rw [List.forall_mem_cons, ← ih]
    cases hkeep : keep x with
    | true => cases hf : f x <;> simp [hkeep, hf]
    | false =>
      cases hf : f x with
      | none => simp [hkeep, hf]
      | some y =>
        rw [List.filter_cons_of_neg (by simp [hkeep]), List.filterMap_cons_some hf]
        constructor
        · intro h
          rw [h, List.length_cons] at hle
          omega
        · simp

/-- Exactly what is claimed is reported unless a member with a name or `this` at its root stands in a pattern. -/
theorem targets_reported_iff (target : Json) (leaves : List Leaf) :
    (Leaf.reported target leaves).filterMap Leaf.target? = leaves.filterMap Leaf.target? ↔
      target.type? = some "MemberExpression" ∨ ∀ leaf ∈ leaves, leaf.isName = true ∨ leaf.target? = none := by
  unfold Leaf.reported
  split
  · next h => simp [h]
  · next h => rw [filterMap_filter_eq_iff, or_iff_right h]

/-! ## Sequences -/

theorem flatten_mapM_cons {α β : Type} (f : α → Except Fault (List β)) (x : α) (xs : List α) :
    List.flatten <$> (x :: xs).mapM f = (do return (← f x) ++ (← List.flatten <$> xs.mapM f)) := by
  rw [List.mapM_cons]
  cases f x <;> cases xs.mapM f <;> rfl

theorem flatten_mapM_append {α β : Type} (f : α → Except Fault (List β)) (xs ys : List α) :
    List.flatten <$> (xs ++ ys).mapM f = (do return (← List.flatten <$> xs.mapM f) ++ (← List.flatten <$> ys.mapM f)) := by
  rw [List.mapM_append]
  cases xs.mapM f <;> cases ys.mapM f <;> simp

theorem flatten_mapM_singleton {α β : Type} (f : α → Except Fault (List β)) (x : α) :
    List.flatten <$> [x].mapM f = f x := by
  rw [flatten_mapM_cons]
  cases f x <;> simp

mutual

/-- What is reported for an expression is what is reported for the targets that it writes to, one after the other. -/
theorem Writes.writtenTargets : ∀ {expression : Json} {written : List Json}, Writes expression written →
    writtenTargets expression = List.flatten <$> written.mapM targetsOf
  | _, _, .assignment htype hleft => (writtenTargets_assignment htype hleft).trans (flatten_mapM_singleton ..).symm
  | _, _, .update htype hargument => (writtenTargets_update htype hargument).trans (flatten_mapM_singleton ..).symm
  | _, _, .sequence htype hitems h => (writtenTargets_sequence htype hitems).trans h.writtenTargets
  | _, _, .other htype h => writtenTargets_other htype h

theorem WritesEach.writtenTargets : ∀ {items written : List Json}, WritesEach items written →
    List.flatten <$> items.mapM ScriptTrace.writtenTargets = List.flatten <$> written.mapM targetsOf
  | _, _, .nil => rfl
  | _, _, .cons h hrest => by
    rw [flatten_mapM_cons, flatten_mapM_append, h.writtenTargets, hrest.writtenTargets]

end

/-- For every target, its leaves are reported in source order, each name as itself and a chain of members by its root,
but of a pattern the names only; so all leaves are reported unless a chain with a name or `this` at its root stands in
a pattern. For every expression, what is reported are the targets of its assignments and updates, at whatever depth of
sequences, in source order. -/
theorem targetsOf_leaves {target expression : Json} {leaves : List Leaf} {written : List Json}
    (htarget : Leaves target leaves) (hwrites : Writes expression written) :
    targetsOf target = .ok ((Leaf.reported target leaves).filterMap Leaf.target?) ∧
    (targetsOf target = .ok (leaves.filterMap Leaf.target?) ↔
      target.type? = some "MemberExpression" ∨ ∀ leaf ∈ leaves, leaf.isName = true ∨ leaf.target? = none) ∧
    writtenTargets expression = List.flatten <$> written.mapM targetsOf := by
  refine ⟨htarget.targetsOf, ?_, hwrites.writtenTargets⟩
  rw [htarget.targetsOf, Except.ok.injEq]
  exact targets_reported_iff target leaves

/-- The member `a.b`. -/
def memberNode : Json :=
  .obj [("type", .str "MemberExpression"), ("computed", .bool false), ("object", .ident (.str "a")),
    ("property", .ident (.str "b"))]

/-- The pattern `[, {p: a.b = c, ...d}]`. -/
def nestedPattern : Json :=
  let value : Json := .obj [("type", .str "AssignmentPattern"), ("left", memberNode), ("right", .ident (.str "c"))]
  let member : Json := .obj [("type", .str "Property"), ("key", .ident (.str "p")), ("value", value)]
  let rest : Json := .obj [("type", .str "RestElement"), ("argument", .ident (.str "d"))]
  .obj [("type", .str "ArrayPattern"), ("elements",
    .arr [.null, .obj [("type", .str "ObjectPattern"), ("properties", .arr [member, rest])]])]

/-- The sequence `a.b = c, (d++, e)`. -/
def nestedSequence : Json :=
  let assignment : Json := .obj [("type", .str "AssignmentExpression"), ("left", memberNode), ("right", .ident (.str "c"))]
  let update : Json := .obj [("type", .str "UpdateExpression"), ("argument", .ident (.str "d"))]
  let inner : Json := .obj [("type", .str "SequenceExpression"), ("expressions", .arr [update, .ident (.str "e")])]
  .obj [("type", .str "SequenceExpression"), ("expressions", .arr [assignment, inner])]

theorem leaves_memberNode : Leaves memberNode [.member (.name "a")] :=
  .member rfl (.member rfl rfl (.name rfl rfl))

theorem leaves_nestedPattern : Leaves nestedPattern [.member (.name "a"), .name "d"] :=
  have hmember : MemberLeaves _ [.member (.name "a"), .name "d"] :=
    .property rfl rfl (.withDefault rfl rfl leaves_memberNode) (.rest rfl rfl (.name rfl rfl) .nil)
  .array rfl rfl (.hole (.item (.object rfl rfl hmember) .nil))

theorem writes_nestedSequence : Writes nestedSequence [memberNode, .ident (.str "d")] :=
  have hname : Fields.type? [("type", .str "Identifier"), ("name", .str "e")] = some "Identifier" := rfl
  have hinner : Writes _ [.ident (.str "d")] :=
    .sequence rfl rfl (.cons (.update rfl rfl) (.cons (.other hname (by decide)) .nil))
  .sequence rfl rfl (.cons (.assignment rfl rfl) (.cons hinner .nil))

theorem targetsOf_leaves_nested :
    targetsOf nestedPattern = .ok [.named (.str "d")] ∧
    writtenTargets nestedSequence = .ok [.named (.str "a"), .named (.str "d")] := by
  obtain ⟨htarget, -, hwritten⟩ := targetsOf_leaves leaves_nestedPattern writes_nestedSequence
  exact ⟨htarget, hwritten⟩

/-- A member in a pattern is written to, and nothing is reported for it. -/
theorem memberLeaf_unreported :
    ∃ leaves, Leaves (.obj [("type", .str "ArrayPattern"), ("elements", .arr [memberNode])]) leaves ∧
      targetsOf (.obj [("type", .str "ArrayPattern"), ("elements", .arr [memberNode])]) ≠
        .ok (leaves.filterMap Leaf.target?) :=
  ⟨[.member (.name "a")], .array rfl rfl (.item leaves_memberNode .nil), nofun⟩

end ScriptTrace
