import ScriptTrace.Proofs.Rewriting

/-!
# Taking the probes out again

Probes are told from user code by the names of the runtime. Where user code does not use these names,
they can be taken out of a program one by one, from the inside out.

* `Json.Unreserved` : a value in which no identifier has a name of the probes;
* `Json.erase` : a value without its probes;
* `Json.erase_eq_self` : a value without such names has no probes;
* `Json.isProbe_eq_false` : and none of its parts is taken for one.
-/

namespace ScriptTrace

open Probe Rewriting

namespace Json

/-! ## Names of the probes -/

/-- Names of the variables that carry the probes of a counted loop: a number follows. -/
def isInitName (name : String) : Bool :=
  let digits := name.toList.drop 13
  "__probe_init_".toList.isPrefixOf name.toList && !digits.isEmpty && digits.all Char.isDigit

def isReserved (name : String) : Bool :=
  [recordName, snapshotName, returnName, testName, printName, caughtName].contains name || isInitName name

/-- Whether a value is an identifier whose name has a property. -/
def isIdentifier (p : String → Bool) (j : Json) : Bool :=
  j.type? == some "Identifier" && (j.field "name").string?.any p

/-- No identifier in a value, at any depth, has a name of the probes. -/
def Unreserved (j : Json) : Prop := j.everyObject (fun fields => !isIdentifier isReserved (.obj fields)) = true

instance (j : Json) : Decidable (Unreserved j) := inferInstanceAs (Decidable (_ = _))

theorem isInitName_initName (n : Nat) : isInitName (initName n) = true := by
  have hlist : (initName n).toList = "__probe_init_".toList ++ Nat.toDigits 10 n := by
    rw [initName, String.toList_append, Nat.toString_eq_repr, Nat.repr_eq_ofList_toDigits]
    exact congrArg _ String.toList_ofList
  have hdrop : ("__probe_init_".toList ++ Nat.toDigits 10 n).drop 13 = Nat.toDigits 10 n := rfl
  simp only [isInitName, hlist, hdrop, Bool.and_eq_true, List.all_eq_true]
  refine ⟨⟨by simp, by simp⟩, fun c hc => ?_⟩
  exact Nat.isDigit_of_mem_toDigits (by decide) (by decide) hc

/-! ## Probes -/

/-- Whether a value is a call of a function known by name. -/
def calls (name : String) (j : Json) : Bool :=
  j.type? == some "CallExpression" && isIdentifier (· == name) (j.field "callee")

/-- The statement of a record. -/
def isRecord (j : Json) : Bool := j.type? == some "ExpressionStatement" && calls recordName (j.field "expression")

/-- The declarator that carries the probes of a counted loop. -/
def isInitDeclarator (j : Json) : Bool := j.type? == some "VariableDeclarator" && isIdentifier isInitName (j.field "id")

/-- The `try` around the statements of a function. -/
def isGuard (j : Json) : Bool :=
  j.type? == some "TryStatement" && isIdentifier (· == caughtName) ((j.field "handler").field "param")

/-- Whether a value is not by itself an item of the list it stands in. -/
def isProbe (j : Json) : Bool := isRecord j || isInitDeclarator j || isGuard j

/-- What an item of a list stands for: nothing for a record, and its statements for a guard. -/
def spliced (j : Json) : List Json :=
  if isRecord j || isInitDeclarator j then []
  else if isGuard j then ((j.field "block").field "body").items
  else [j]

/-- The method that output is printed with. -/
def consoleLog : Json :=
  .obj [("type", .str "MemberExpression"), ("object", .ident (.str "console")), ("property", .ident (.str "log")),
    ("computed", .bool false)]

/-- What a node stands for whose parts have no probes: a wrapped expression for that expression, a print
for the call of the console, a sequence that ends with a record for the expression before it. -/
def eraseNode (fields : Fields Json) : Json :=
  let node : Json := .obj fields
  if calls returnName node || calls testName node then (node.field "arguments").items.getLast?.getD node
  else if calls printName node then
    let printed := ((node.field "arguments").items.getLast?.getD .null).field "elements"
    .obj (Fields.set "arguments" printed (Fields.set "callee" consoleLog fields))
  else if node.type? == some "SequenceExpression" then
    match (node.field "expressions").items with
    | [e, probe] => if calls recordName probe then e else node
    | _ => node
  else node

mutual

/-- A value without its probes. -/
def erase : Json → Json
  | .arr items => .arr (eraseItems items)
  | .obj fields => eraseNode (eraseFields fields)
  | j => j

def eraseItems : List Json → List Json
  | [] => []
  | x :: xs => spliced (erase x) ++ eraseItems xs

def eraseFields : List (String × Json) → List (String × Json)
  | [] => []
  | (k, x) :: xs => (k, erase x) :: eraseFields xs

end

theorem eraseItems_eq_flatMap (items : List Json) : eraseItems items = items.flatMap fun x => spliced (erase x) := by
  induction items with
  | nil => rfl
  | cons x xs ih => rw [eraseItems, ih, List.flatMap_cons]

theorem eraseFields_eq_mapValues : ∀ fields : Fields Json, eraseFields fields = Fields.mapValues erase fields
  | [] => rfl
  | (_, _) :: rest => by rw [eraseFields, eraseFields_eq_mapValues rest, Fields.mapValues_cons]

@[simp] theorem erase_arr (items : List Json) : erase (.arr items) = .arr (items.flatMap fun x => spliced (erase x)) := by
  rw [erase, eraseItems_eq_flatMap]

theorem erase_obj (fields : Fields Json) : erase (.obj fields) = eraseNode (Fields.mapValues erase fields) := by
  rw [erase, eraseFields_eq_mapValues]

theorem spliced_of_not_probe {j : Json} (h : isProbe j = false) : spliced j = [j] := by
  simp only [isProbe, Bool.or_eq_false_iff] at h
  simp [spliced, h]

/-! ## Values without probes -/

section Unreserved

variable {j : Json}

theorem Unreserved.isIdentifier (h : j.Unreserved) {p : String → Bool} (hp : ∀ name, p name = true → isReserved name = true) :
    isIdentifier p j = false := by
  cases j with
  | obj fields =>
    have hnot : Json.isIdentifier isReserved (.obj fields) = false := by simpa using (everyObject_obj.1 h).1
    cases hid : Json.isIdentifier p (.obj fields) with
    | false => rfl
    | true =>
      simp only [Json.isIdentifier, Bool.and_eq_true, Option.any_eq_true] at hid
      obtain ⟨htype, name, hname, hpname⟩ := hid
      have hyes : Json.isIdentifier isReserved (.obj fields) = true := by
        rw [Json.isIdentifier, htype, hname, Option.any_some, hp name hpname]; rfl
      rw [hyes] at hnot
      cases hnot
  | _ => rfl

theorem Unreserved.field (h : j.Unreserved) (key : String) : (j.field key).Unreserved := everyObject_field h key

theorem Unreserved.item {items : List Json} (h : (Json.arr items).Unreserved) {x : Json} (hx : x ∈ items) : x.Unreserved :=
  everyObject_arr.1 h x hx

theorem Unreserved.of_mem_items (h : j.Unreserved) {x : Json} (hx : x ∈ j.items) : x.Unreserved := everyObject_mem_items h hx

theorem Unreserved.calls (h : j.Unreserved) {name : String} (hname : isReserved name = true) : calls name j = false := by
  rw [Json.calls, (h.field "callee").isIdentifier fun n hn => by rw [beq_iff_eq.1 hn]; exact hname, Bool.and_false]

/-- No value without reserved names is taken for a probe. -/
theorem Unreserved.isProbe (h : j.Unreserved) : isProbe j = false := by
  have hrecord : isRecord j = false := by rw [isRecord, (h.field "expression").calls rfl, Bool.and_false]
  have hinit : isInitDeclarator j = false := by
    rw [isInitDeclarator, (h.field "id").isIdentifier fun n hn => by rw [isReserved, hn, Bool.or_true], Bool.and_false]
  have hguard : isGuard j = false := by
    rw [isGuard, ((h.field "handler").field "param").isIdentifier fun n hn => by rw [beq_iff_eq.1 hn]; rfl, Bool.and_false]
  rw [Json.isProbe, hrecord, hinit, hguard]
  rfl

theorem eraseNode_of_calls {fields : Fields Json}
    (hcalls : ∀ name ∈ [returnName, testName, printName], calls name (.obj fields) = false)
    (hrecord : ∀ e probe, ((Json.obj fields).field "expressions").items = [e, probe] → calls recordName probe = false) :
    eraseNode fields = .obj fields := by
  simp only [List.mem_cons, List.not_mem_nil, or_false, forall_eq_or_imp, forall_eq] at hcalls
  obtain ⟨hreturn, htest, hprint⟩ := hcalls
  simp only [eraseNode, hreturn, htest, hprint, Bool.or_self, Bool.false_eq_true, if_false]
  split
  · split
    · next e probe he => rw [if_neg (by rw [hrecord e probe he]; decide)]
    · rfl
  · rfl

theorem eraseNode_of_unreserved {fields : Fields Json} (h : (Json.obj fields).Unreserved) :
    eraseNode fields = .obj fields := by
  refine eraseNode_of_calls (fun name hname => h.calls ?_) fun e probe he => ?_
  · simp only [List.mem_cons, List.not_mem_nil, or_false] at hname
    rcases hname with rfl | rfl | rfl <;> rfl
  · have hexpressions := h.field "expressions"
    cases hv : (Json.obj fields).field "expressions" with
    | arr items =>
      rw [hv] at he hexpressions
      have hmem : probe ∈ items := by
        rw [show items = [e, probe] from he]
        simp
      exact (hexpressions.item hmem).calls rfl
    | _ => rw [hv] at he; cases he

/-- A value without reserved names has no probes. -/
theorem erase_eq_self (j : Json) : j.Unreserved → erase j = j := by
  induction j using Json.ind with
  | scalar j hj => cases j <;> first | exact fun _ => rfl | cases hj
  | arr items ih =>
    intro h
    have hitem : ∀ x ∈ items, spliced (erase x) = [x] := fun x hx => by
      rw [ih x hx (h.item hx), spliced_of_not_probe (h.item hx).isProbe]
    rw [erase_arr, List.flatMap_congr hitem, List.flatMap_singleton']
  | obj fields ih =>
    intro h
    have hfields : Fields.mapValues erase fields = fields := by
      rw [Fields.mapValues, List.map_congr_left fun f hf => by rw [ih f hf ((everyObject_obj.1 h).2 f hf)], List.map_id']
    rw [erase_obj, hfields, eraseNode_of_unreserved h]

end Unreserved

end Json

end ScriptTrace
