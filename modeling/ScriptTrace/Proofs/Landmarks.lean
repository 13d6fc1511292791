import ScriptTrace.Proofs.FunctionRules
import ScriptTrace.Proofs.Records

/-!
# The landmarks of a program

What instrumenting does to a program shows at its landmarks: the functions, the nodes that hold lists of
statements, and the returns. They are collected in the order written from the fields that are visited, once
branches and bodies are blocks.

* `Landmark` : a landmark as the pass comes to it, with the enclosing classes and the node around;
* `landmarks` : those of a value; functions inside may be left alone;
* `sites` : the fields of the landmarks, apart from where the pass comes from;
* `sites_record`, `sites_guarded` : records have no landmarks, and guards only blocks of their own.
-/

namespace ScriptTrace

open Probe Rewriting

namespace Rewriting

def landmarkTypes : List String := functionTypes ++ ["Program", "BlockStatement", "SwitchCase", "ReturnStatement"]

/-- Nodes without parts are not entered, and functions only if asked for. -/
def isEntered (inside : Bool) (type : String) : Bool :=
  !(["Identifier", "Literal"].contains type) && (!functionTypes.contains type || inside)

def blockFields (statements : List Json) : Fields Json := [("type", .str "BlockStatement"), ("body", .arr statements)]

def returnFields (body : Json) : Fields Json :=
  [("type", .str "ReturnStatement"), ("argument", body), ("loc", body.field "loc")]

/-- Whether a field is a statement that is put into a block. -/
def isMadeBlock (type key : String) (v : Json) : Prop :=
  (type = "IfStatement" ∧ key ∈ ["consequent", "alternate"] ∨ type ∈ "ForStatement" :: loopTypes ∧ key = "body") ∧
    v.isNode = true ∧ v.type? ≠ some "BlockStatement"

/-- Whether a field is an expression that a function answers. -/
def isMadeReturn (type key : String) (v : Json) : Prop :=
  type ∈ functionTypes ∧ key = "body" ∧ v.type? ≠ some "BlockStatement"

instance (type key : String) (v : Json) : Decidable (isMadeBlock type key v) := inferInstanceAs (Decidable (_ ∧ _))

instance (type key : String) (v : Json) : Decidable (isMadeReturn type key v) := inferInstanceAs (Decidable (_ ∧ _))

/-- The name of a class as far as it has one. -/
def nameOfClass (classes : List Json) (up : Option Json) (type : String) (fields : Fields Json) : Json :=
  match className classes up type fields with
  | .ok name => name
  | .error _ => .null

end Rewriting

/-- A node with what the pass knows of the nodes around it. -/
structure Landmark where
  classes : List Json
  up : Option Json
  fields : Fields Json

namespace Landmark

/-- A node is a landmark or none, by its type. -/
def ofType (type : String) (l : Landmark) : List Landmark := if type ∈ landmarkTypes then [l] else []

/-- The landmarks of a field that is made ready, given those of its value. -/
def ready (classes : List Json) (node : Fields Json) (type key : String) (v : Json)
    (below : Option Json → List Landmark) : List Landmark :=
  if isMadeBlock type key v then ⟨classes, some (.obj node), blockFields [v]⟩ :: below none
  else if isMadeReturn type key v then
    ⟨classes, some (.obj node), blockFields [returnOf v]⟩ :: ⟨classes, none, returnFields v⟩ :: below (some (returnOf v))
  else below (some (.obj node))

end Landmark

mutual

/-- The landmarks of a value, inside the classes named and below the node `up`. -/
def landmarks (inside : Bool) (classes : List Json) (up : Option Json) : Json → List Landmark
  | .arr items => landmarksItems inside classes up items
  | .obj fields =>
    match Fields.type? fields with
    | none => []
    | some type => Landmark.ofType type ⟨classes, up, fields⟩ ++
        if isEntered inside type then landmarksFields inside classes (nameOfClass classes up type fields) type fields fields
        else []
  | _ => []
termination_by structural j => j

def landmarksItems (inside : Bool) (classes : List Json) (up : Option Json) : List Json → List Landmark
  | [] => []
  | x :: xs => (if x.isNode then landmarks inside classes up x else []) ++ landmarksItems inside classes up xs
termination_by structural items => items

def landmarksFields (inside : Bool) (classes : List Json) (name : Json) (type : String) (node : Fields Json) :
    List (String × Json) → List Landmark
  | [] => []
  | (key, x) :: rest =>
    (match mode type node key with
      | .kept => []
      | .visited => Landmark.ready (classesAt classes type key name) node type key x fun up =>
          landmarks inside (classesAt classes type key name) up x
      | .statements => landmarks inside (classesAt classes type key name) none x) ++
      landmarksFields inside classes name type node rest
termination_by structural fields => fields

end

/-- The landmarks of a field. -/
def fieldLandmarks (inside : Bool) (classes : List Json) (name : Json) (type : String) (node : Fields Json) (key : String)
    (v : Json) : List Landmark :=
  match mode type node key with
  | .kept => []
  | .visited => Landmark.ready (classesAt classes type key name) node type key v fun up =>
      landmarks inside (classesAt classes type key name) up v
  | .statements => landmarks inside (classesAt classes type key name) none v

theorem landmarksItems_eq_flatMap (inside : Bool) (classes : List Json) (up : Option Json) (items : List Json) :
    landmarksItems inside classes up items =
      items.flatMap fun x => if x.isNode then landmarks inside classes up x else [] := by
  induction items with
  | nil => rfl
  | cons x xs ih => rw [landmarksItems, ih, List.flatMap_cons]

theorem landmarksFields_eq_flatMap (inside : Bool) (classes : List Json) (name : Json) (type : String) (node : Fields Json) :
    ∀ fields : Fields Json, landmarksFields inside classes name type node fields =
      fields.flatMap fun f => fieldLandmarks inside classes name type node f.1 f.2
  | [] => rfl
  | (key, x) :: rest => by
    rw [landmarksFields, landmarksFields_eq_flatMap inside classes name type node rest, List.flatMap_cons]
    rfl

section Landmarks

variable {inside : Bool} {classes : List Json} {up : Option Json} {type : String} {fields : Fields Json}

theorem landmarks_arr (items : List Json) : landmarks inside classes up (.arr items) =
    items.flatMap fun x => if x.isNode then landmarks inside classes up x else [] := by
  rw [landmarks, landmarksItems_eq_flatMap]

theorem landmarks_obj (htype : Fields.type? fields = some type) : landmarks inside classes up (.obj fields) =
    Landmark.ofType type ⟨classes, up, fields⟩ ++
      if isEntered inside type then
        fields.flatMap fun f => fieldLandmarks inside classes (nameOfClass classes up type fields) type fields f.1 f.2
      else [] := by
  rw [landmarks, htype]
  simp only [landmarksFields_eq_flatMap]

theorem landmarks_eq_nil {v : Json} (hnode : v.isNode = false) (hlist : ∀ items, v ≠ .arr items) :
    landmarks inside classes up v = [] := by
  cases v with
  | arr items => exact absurd rfl (hlist items)
  | obj fields =>
    have htype : Fields.type? fields = none := type?_eq_none hnode
    rw [landmarks, htype]
  | _ => rfl

end Landmarks

theorem landmarks_inert {inside : Bool} {classes : List Json} {up : Option Json} {v : Json} (h : v.isInert = true) :
    landmarks inside classes up v = [] := by
  cases v with
  | arr items =>
    rw [landmarks_arr, List.flatMap_eq_nil_iff]
    intro x hx
    exact if_neg (by simpa using List.all_eq_true.1 h x hx)
  | obj fields => exact landmarks_eq_nil (by simpa [Json.isInert] using h) fun _ he => nomatch he
  | _ => rfl

/-! ## Sites -/

/-- The fields of the landmarks of a value. -/
def sites (inside : Bool) (j : Json) : List (Fields Json) := (landmarks inside [] none j).map Landmark.fields

theorem Landmark.map_fields_ready {classes classes' : List Json} {node : Fields Json} {type key : String} {v : Json}
    {below below' : Option Json → List Landmark}
    (h : ∀ up up', (below up).map Landmark.fields = (below' up').map Landmark.fields) :
    (Landmark.ready classes node type key v below).map Landmark.fields =
      (Landmark.ready classes' node type key v below').map Landmark.fields := by
  unfold Landmark.ready
  split
  · rw [List.map_cons, List.map_cons, h none none]
  · split
    · rw [List.map_cons, List.map_cons, List.map_cons, List.map_cons, h _ (some (returnOf v))]
    · exact h _ _

theorem Landmark.map_fields_ofType (type : String) (l : Landmark) :
    (Landmark.ofType type l).map Landmark.fields = if type ∈ landmarkTypes then [l.fields] else [] := by
  unfold Landmark.ofType
  split <;> rfl

/-- The fields of the landmarks do not depend on the nodes around. -/
theorem map_fields_landmarks (inside : Bool) (classes classes' : List Json) (up up' : Option Json) (j : Json) :
    (landmarks inside classes up j).map Landmark.fields = (landmarks inside classes' up' j).map Landmark.fields := by
  induction j using Json.ind generalizing classes classes' up up' with
  | scalar j hj => cases j <;> first | rfl | cases hj
  | arr items ih =>
    rw [landmarks_arr, landmarks_arr, List.map_flatMap, List.map_flatMap]
    refine List.flatMap_congr fun x hx => ?_
    split
    · exact ih x hx ..
    · rfl
  | obj fields ih =>
    cases htype : Fields.type? fields with
    | none => rw [landmarks, landmarks, htype]
    | some type =>
      rw [landmarks_obj htype, landmarks_obj htype, List.map_append, List.map_append, Landmark.map_fields_ofType,
        Landmark.map_fields_ofType]
      refine (List.append_right_inj _).2 ?_
      split
      · rw [List.map_flatMap, List.map_flatMap]
        refine List.flatMap_congr fun f hf => ?_
        unfold fieldLandmarks
        split
        · rfl
        · exact Landmark.map_fields_ready fun up up' => ih f hf ..
        · exact ih f hf ..
      · rfl

/-- The fields of the landmarks that a field is put into when it is made ready. -/
def readySites (type key : String) (v : Json) : List (Fields Json) :=
  if isMadeBlock type key v then [blockFields [v]]
  else if isMadeReturn type key v then [blockFields [returnOf v], returnFields v]
  else []

/-- The fields of the landmarks of a field. -/
def fieldSites (inside : Bool) (type : String) (node : Fields Json) (key : String) (v : Json) : List (Fields Json) :=
  match mode type node key with
  | .kept => []
  | .visited => readySites type key v ++ sites inside v
  | .statements => sites inside v

section Sites

variable {inside : Bool} {classes : List Json} {up : Option Json} {type : String} {fields : Fields Json}

theorem map_landmarks (inside : Bool) (classes : List Json) (up : Option Json) (j : Json) :
    (landmarks inside classes up j).map Landmark.fields = sites inside j := map_fields_landmarks ..

theorem map_fieldLandmarks (name : Json) (key : String) (v : Json) :
    (fieldLandmarks inside classes name type fields key v).map Landmark.fields = fieldSites inside type fields key v := by
  unfold fieldLandmarks fieldSites
  split
  · rfl
  · unfold Landmark.ready readySites
    split
    · rw [List.map_cons, map_landmarks]
      rfl
    · split
      · rw [List.map_cons, List.map_cons, map_landmarks]
        rfl
      · rw [map_landmarks]
        rfl
  · exact map_landmarks ..

theorem sites_arr (items : List Json) :
    sites inside (.arr items) = items.flatMap fun x => if x.isNode then sites inside x else [] := by
  rw [sites, landmarks_arr, List.map_flatMap]
  refine congrArg (List.flatMap · items) (funext fun x => ?_)
  split
  · rfl
  · rfl

theorem sites_append (xs ys : List Json) :
    sites inside (.arr (xs ++ ys)) = sites inside (.arr xs) ++ sites inside (.arr ys) := by
  rw [sites_arr, sites_arr, sites_arr, List.flatMap_append]

theorem sites_obj (type : String) (htype : Fields.type? fields = some type) : sites inside (.obj fields) =
    (if type ∈ landmarkTypes then [fields] else []) ++
      if isEntered inside type then fields.flatMap fun f => fieldSites inside type fields f.1 f.2 else [] := by
  rw [sites, landmarks_obj htype, List.map_append, Landmark.map_fields_ofType]
  refine (List.append_right_inj _).2 ?_
  split
  · rw [List.map_flatMap]
    refine congrArg (List.flatMap · fields) (funext fun f => map_fieldLandmarks ..)
  · rfl

theorem sites_eq_nil {v : Json} (hnode : v.isNode = false) (hlist : ∀ items, v ≠ .arr items) : sites inside v = [] := by
  rw [sites, landmarks_eq_nil hnode hlist]
  rfl

end Sites

/-! ## Probes -/

section Probes

variable (inside : Bool)

theorem sites_ident (name : Json) : sites inside (.ident name) = [] := by
  rw [Json.ident, sites_obj "Identifier" rfl]
  rfl

theorem sites_literal (value : Json) : sites inside (.literal value) = [] := by
  rw [Json.literal, sites_obj "Literal" rfl]
  rfl

/-- Types of nodes in probes all fields of which are visited. -/
def probeTypes : List String :=
  ["ExpressionStatement", "ThrowStatement", "TryStatement", "CatchClause", "CallExpression", "SequenceExpression",
    "ObjectExpression", "ArrayExpression", "UnaryExpression", "ThisExpression"]

theorem probeTypes_spec : ∀ type ∈ probeTypes, type ∉ landmarkTypes ∧ isEntered inside type = true ∧
    type ∉ ["Program", "BlockStatement", "SwitchCase", "MethodDefinition", "Property"] ∧ ofGroup type visitTable = none ∧
    type ∉ "IfStatement" :: "ForStatement" :: loopTypes ++ functionTypes := by
  cases inside <;> decide

theorem readySites_eq_nil {type : String} (h : type ∉ "IfStatement" :: "ForStatement" :: loopTypes ++ functionTypes)
    (key : String) (v : Json) : readySites type key v = [] := by
  simp only [List.cons_append, List.mem_cons, List.mem_append, not_or] at h
  obtain ⟨hif, hfor, hloop, hfunction⟩ := h
  have hblock : ¬ isMadeBlock type key v := by
    rintro ⟨⟨h, -⟩ | ⟨h, -⟩, -⟩
    · exact hif h
    · exact (List.mem_cons.1 h).elim hfor hloop
  rw [readySites, if_neg hblock, if_neg fun h => hfunction h.1]

theorem sites_probeNode (type : String) {fields : Fields Json} (htype : Fields.type? fields = some type)
    (h : type ∈ probeTypes) :
    sites inside (.obj fields) = fields.flatMap fun f => if f.1 = "loc" ∨ f.1 = "range" then [] else sites inside f.2 := by
  obtain ⟨hlandmark, hentered, hrule, htable, hready⟩ := probeTypes_spec inside type h
  simp only [List.mem_cons, List.not_mem_nil, or_false, not_or] at hrule
  rw [sites_obj _ htype, if_neg hlandmark, if_pos hentered, List.nil_append]
  refine congrArg (List.flatMap · fields) (funext fun f => ?_)
  have hmode : mode type fields f.1 = if f.1 = "loc" ∨ f.1 = "range" then .kept else .visited := by
    rw [mode, if_neg (by simp [hrule]), visitedFields, if_neg (by simp [hrule]), htable]
  rw [fieldSites, hmode, readySites_eq_nil hready]
  split
  · next heq =>
    split at heq
    · next hkey => rw [if_pos hkey]
    · cases heq
  · next heq =>
    split at heq
    · cases heq
    · next hkey => rw [if_neg hkey, List.nil_append]
  · next heq => split at heq <;> cases heq

theorem sites_str (s : String) : sites inside (.str s) = [] := rfl

theorem sites_callOf (name : String) (arguments : List Json) :
    sites inside (.callOf name arguments) = sites inside (.arr arguments) := by
  rw [Json.callOf, sites_probeNode inside "CallExpression" rfl (by decide)]
  simp [sites_str, sites_ident]

theorem sites_expressionStatement (e : Json) : sites inside (.expressionStatement e) = sites inside e := by
  rw [Json.expressionStatement, sites_probeNode inside "ExpressionStatement" rfl (by decide)]
  simp [sites_str]

theorem sites_sequenceOf (e probe : Json) : sites inside (sequenceOf e probe) = sites inside (.arr [e, probe]) := by
  rw [sequenceOf, sites_probeNode inside "SequenceExpression" rfl (by decide)]
  simp [sites_str]

theorem sites_arrayOf (elements : Json) : sites inside (arrayOf elements) = sites inside elements := by
  rw [arrayOf, sites_probeNode inside "ArrayExpression" rfl (by decide)]
  simp [sites_str]

theorem sites_voidZero : sites inside .voidZero = [] := by
  rw [Json.voidZero, sites_probeNode inside "UnaryExpression" rfl (by decide)]
  simp [sites_str, sites_literal, sites_eq_nil (v := .bool true) rfl (by simp)]

theorem sites_property (key value : Json) : sites inside (.property key value) = sites inside value := by
  rw [Json.property, sites_obj "Property" rfl]
  simp [landmarkTypes, functionTypes, isEntered, fieldSites, mode, visitedFields, isComputed, Fields.get?, Json.truthy,
    readySites_eq_nil, loopTypes]

theorem sites_snapshot {t : Target} (h : t.IsVariable) : sites inside (snapshot t.expression) = [] := by
  have hexpression : t.expression.isNode = true ∧ sites inside t.expression = [] := by
    rcases h with h | ⟨name, h⟩
    · rw [h]
      refine ⟨rfl, ?_⟩
      rw [Json.thisNode, sites_probeNode inside "ThisExpression" rfl (by decide)]
      rfl
    · rw [h]
      exact ⟨rfl, sites_ident inside name⟩
  rw [snapshot, sites_callOf, sites_arr]
  simp [hexpression]

/-- An object has the landmarks of its values. -/
theorem sites_objectOf (pairs : List (Json × Json)) (h : ∀ p ∈ pairs, sites inside p.2 = []) :
    sites inside (.objectOf pairs) = [] := by
  rw [Json.objectOf, sites_probeNode inside "ObjectExpression" rfl (by decide)]
  have hproperties : sites inside (.arr (pairs.map fun p => Json.property p.1 p.2)) = [] := by
    rw [sites_arr, List.flatMap_eq_nil_iff]
    intro x hx
    obtain ⟨p, hp, rfl⟩ := List.mem_map.1 hx
    change sites inside (Json.property p.1 p.2) = []
    rw [sites_property, h p hp]
  simpa [sites_str] using hproperties

theorem sites_record (kind : String) (line : Json) (pairs : List (String × Json)) (h : ∀ p ∈ pairs, sites inside p.2 = []) :
    sites inside (record kind line pairs) = [] := by
  rw [record, sites_callOf, sites_arr]
  have hobject : sites inside (.objectOf ((Json.str "kind", .literal (.str kind)) :: (.str "line", .literal line) ::
      pairs.map fun p => (Json.str p.1, p.2))) = [] := by
    refine sites_objectOf inside _ fun p hp => ?_
    rcases List.mem_cons.1 hp with rfl | hp
    · exact sites_literal inside _
    rcases List.mem_cons.1 hp with rfl | hp
    · exact sites_literal inside _
    obtain ⟨q, hq, rfl⟩ := List.mem_map.1 hp
    exact h q hq
  simpa using fun _ => hobject

theorem sites_statement (kind : String) (line : Json) (pairs : List (String × Json)) (h : ∀ p ∈ pairs, sites inside p.2 = []) :
    sites inside (statement kind line pairs) = [] := by
  rw [statement, sites_expressionStatement, sites_record inside kind line pairs h]

theorem sites_locals (kind : String) (line : Json) {targets : List Target} (h : ∀ t ∈ targets, t.IsVariable) :
    sites inside (locals kind line targets) = [] := by
  refine sites_record inside _ _ _ fun p hp => ?_
  rw [List.mem_singleton.1 hp]
  refine sites_objectOf inside _ fun q hq => ?_
  obtain ⟨t, ht, rfl⟩ := List.mem_map.1 hq
  exact sites_snapshot inside (h t ht)

theorem sites_isLocals {j : Json} (h : IsLocals j) : sites inside j = [] := by
  obtain ⟨kind, line, targets, htargets, rfl⟩ := h
  rw [localsStatement, sites_expressionStatement, sites_locals inside kind line htargets]

/-- Records have no landmarks. -/
theorem sites_records (records : List Json) (h : ∀ r ∈ records, sites inside r = []) :
    sites inside (.arr records) = [] := by
  rw [sites_arr, List.flatMap_eq_nil_iff]
  intro r hr
  rw [h r hr]
  split <;> rfl

theorem sites_called (line name : Json) (params : List Json) : sites inside (called line name params) = [] := by
  refine sites_statement inside _ _ _ fun p hp => ?_
  simp only [List.mem_cons, List.not_mem_nil, or_false] at hp
  rcases hp with rfl | rfl
  · exact sites_literal inside name
  · refine sites_objectOf inside _ fun q hq => ?_
    obtain ⟨param, -, rfl⟩ := List.mem_map.1 hq
    exact sites_snapshot inside (t := .named param) (.named param)

theorem sites_returned (line : Json) : sites inside (returned line) = [] := by
  refine sites_statement inside _ _ _ fun p hp => ?_
  rw [List.mem_singleton.1 hp, snapshot, sites_callOf, sites_arr]
  simp [sites_voidZero]

theorem sites_declared (line name : Json) : sites inside (declared line name) = [] :=
  sites_statement inside _ _ _ fun p hp => by rw [List.mem_singleton.1 hp, sites_literal]

/-- The declarator that carries records has no landmarks. -/
theorem sites_initDeclarator (n : Nat) {probes : List Json} (h : ∀ p ∈ probes, sites inside p = []) :
    sites inside (initDeclarator n probes) = [] := by
  have hcarried (init : Json) : sites inside (.obj [("type", .str "VariableDeclarator"), ("id", .ident (.str (initName n))),
      ("init", init)]) = sites inside init := by
    rw [sites_obj "VariableDeclarator" rfl]
    simp [landmarkTypes, functionTypes, isEntered, fieldSites, mode, visitedFields, ofGroup, visitTable, classTypes,
      readySites_eq_nil, loopTypes]
  unfold initDeclarator
  split
  · next probe => rw [hcarried, h probe (by simp)]
  · rw [hcarried, sites_probeNode inside "SequenceExpression" rfl (by decide)]
    simp [sites_str, sites_records inside _ h]

theorem sites_wrapped (name : String) (line : List Json) (e : Json) (he : e.isNode = false → sites inside e = []) :
    sites inside (wrapped name (line.map .literal) e) = sites inside e := by
  have hliterals : sites inside (.arr (line.map Json.literal)) = [] := sites_records inside _ fun r hr => by
    obtain ⟨value, -, rfl⟩ := List.mem_map.1 hr
    exact sites_literal inside value
  rw [wrapped, sites_callOf, sites_append, hliterals, List.nil_append, sites_arr]
  cases hnode : e.isNode with
  | true => simp [hnode]
  | false => simp [hnode, he hnode]

end Probes

/-! ## Blocks -/

section Blocks

variable {inside : Bool} {classes : List Json} {up : Option Json} {fields : Fields Json}

/-- What is collected from a list of fields only one of which has anything. -/
theorem Fields.flatMap_eq_of_key {α β : Type} {f : String → α → List β} (key : String) : ∀ {fields : Fields α},
    (Fields.names fields).Nodup → (∀ k v, Fields.get? k fields = some v → k ≠ key → f k v = []) →
      fields.flatMap (fun p => f p.1 p.2) = ((Fields.get? key fields).map (f key)).getD []
  | [], _, _ => rfl
  | (k, v) :: rest, hnd, h => by
    obtain ⟨hk, hrest⟩ := List.nodup_cons.1 hnd
    have hbelow : ∀ k' v', Fields.get? k' rest = some v' → k' ≠ key → f k' v' = [] := fun k' v' hv => by
      have hne : k ≠ k' := by
        rintro rfl
        exact hk (Fields.mem_names_of_get? hv)
      exact h k' v' (by rw [Fields.get?, if_neg hne, hv])
    rw [List.flatMap_cons, Fields.flatMap_eq_of_key key hrest hbelow]
    by_cases hkey : k = key
    · subst hkey
      rw [Fields.get?_eq_none.2 hk, Fields.get?, if_pos rfl]
      simp
    · rw [Fields.get?, if_neg hkey, h k v (if_pos rfl) hkey, List.nil_append]

theorem mode_block (fields : Fields Json) (key : String) :
    mode "BlockStatement" fields key = if key = "body" then .statements else .kept := by
  by_cases hkey : key = "body"
  · subst hkey
    rfl
  · rw [if_neg hkey, mode, if_neg (by simp [hkey])]
    simp [visitedFields, ofGroup, visitTable, hkey]

/-- A block is a landmark, and the others are in its list. -/
theorem landmarks_block (htype : Fields.type? fields = some "BlockStatement") (hnd : (Fields.names fields).Nodup) :
    landmarks inside classes up (.obj fields) =
      ⟨classes, up, fields⟩ :: landmarks inside classes none (Json.field "body" (.obj fields)) := by
  rw [landmarks_obj htype, if_pos (by rfl), Fields.flatMap_eq_of_key "body" hnd fun k v _ hk => by
    rw [fieldLandmarks, mode_block, if_neg hk]]
  refine congrArg (_ :: ·) ?_
  rw [Json.field, Json.get?]
  cases Fields.get? "body" fields <;> rfl

theorem sites_block (htype : Fields.type? fields = some "BlockStatement") (hnd : (Fields.names fields).Nodup) :
    sites inside (.obj fields) = fields :: sites inside (Json.field "body" (.obj fields)) := by
  rw [sites, landmarks_block htype hnd]
  rfl

theorem sites_blockOf (statements : List Json) :
    sites inside (blockOf statements) = blockFields statements :: sites inside (.arr statements) :=
  sites_block (show Fields.type? (blockFields statements) = some "BlockStatement" from rfl) (by simp [Fields.names])

/-! ## Guards -/

/-- The block that records an exception and throws it again. -/
def handlerFields (line name : Json) : Fields Json :=
  blockFields [thrown line name, .obj [("type", .str "ThrowStatement"), ("argument", .ident (.str caughtName))]]

theorem sites_handler (line name : Json) : sites inside (handler line name) = [handlerFields line name] := by
  have hthrown : sites inside (thrown line name) = [] :=
    sites_statement inside _ _ _ fun p hp => by rw [List.mem_singleton.1 hp, sites_literal]
  have hrethrow : sites inside (.obj [("type", .str "ThrowStatement"), ("argument", .ident (.str caughtName))]) = [] := by
    rw [sites_probeNode inside "ThrowStatement" rfl (by decide)]
    simp [sites_str, sites_ident]
  have hblock : sites inside (.obj (handlerFields line name)) = [handlerFields line name] := by
    change sites inside (blockOf [_, _]) = _
    rw [sites_blockOf, sites_records inside _ fun r hr => ?_]
    · rfl
    · simp only [List.mem_cons, List.not_mem_nil, or_false] at hr
      rcases hr with rfl | rfl
      · exact hthrown
      · exact hrethrow
  have hhandler : handler line name = .obj [("type", .str "CatchClause"), ("param", .ident (.str caughtName)),
      ("body", .obj (handlerFields line name))] := rfl
  rw [hhandler, sites_probeNode inside "CatchClause" rfl (by decide)]
  simp [sites_str, sites_ident, hblock]

theorem sites_guarded (statements : List Json) (line name : Json) : sites inside (guarded statements line name) =
    blockFields statements :: (sites inside (.arr statements) ++ [handlerFields line name]) := by
  rw [guarded, sites_probeNode inside "TryStatement" rfl (by decide)]
  simp [sites_str, sites_blockOf, sites_handler, sites_eq_nil (v := .null) rfl (by simp)]

theorem sites_closed (statements : List Json) (line : Json) :
    sites inside (.arr (closed statements line)) = sites inside (.arr statements) := by
  unfold closed
  split
  · rfl
  · rw [sites_append, sites_records inside [returned line] fun r hr => by
      rw [List.mem_singleton.1 hr, sites_returned], List.append_nil]

/-- The landmarks of a guarded body are those of its statements, and two blocks of the guard. -/
theorem sites_functionBody (line endLine name : Json) (params statements : List Json) :
    sites inside (.arr (functionBody line endLine name params statements)) =
      sites inside (.arr (statements.takeWhile isDirective)) ++
        blockFields (closed (statements.dropWhile isDirective) endLine) ::
          (sites inside (.arr (statements.dropWhile isDirective)) ++ [handlerFields endLine name]) := by
  have hguard : sites inside (.arr [called line name params,
      guarded (closed (statements.dropWhile isDirective) endLine) endLine name]) =
      sites inside (guarded (closed (statements.dropWhile isDirective) endLine) endLine name) := by
    rw [sites_arr]
    simp only [List.flatMap_cons, List.flatMap_nil, List.append_nil, sites_called, ite_self, List.nil_append]
    rfl
  rw [functionBody, sites_append, hguard, sites_guarded, sites_closed]

end Blocks

end ScriptTrace
