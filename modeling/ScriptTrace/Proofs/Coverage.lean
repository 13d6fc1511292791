import Mathlib.Data.List.Count
import ScriptTrace.Proofs.Erasure
import ScriptTrace.Proofs.Executions
import ScriptTrace.Proofs.Functions
import ScriptTrace.Proofs.Surveys

/-!
# Every construct is traced once

Each function, class, loop, branch and printing call of a program has its probes in the instrumented program, and there
are no others. The patterns of declarators are the one place that is passed over: what stands in a default value there
stays as it is.

* `ProbeKind`, `wanted` : the kinds of probes, and those that a node calls for;
* `constructsOf`, `probesOf` : what a program calls for, and the probes of an instrumented program;
* `Rewrites.count_probes` : what becomes of a value has the probes that the value calls for;
* `instrument_probes` : the same of programs, and of each of their functions.
-/

namespace ScriptTrace

open Probe Rewriting Survey

/-! ## Constructs and probes -/

/-- The probes that a construct of a program calls for. -/
inductive ProbeKind where
  /-- The record of a call, at the start of a function. -/
  | call
  /-- The record of an exception that leaves a function. -/
  | throw
  /-- The record of a class that is declared. -/
  | declaredClass
  /-- The record of an iteration. -/
  | loop
  /-- The condition of a branch, wrapped. -/
  | branch
  /-- The record of the condition of a counted loop. -/
  | counted
  /-- A call that prints. -/
  | print
  deriving DecidableEq

namespace Rewriting

/-- The probes that a node calls for. -/
def wanted (type : String) (fields : Fields Json) : List ProbeKind :=
  if type ∈ functionTypes then [.call, .throw]
  else if type = "ClassDeclaration" then [.declaredClass]
  else if type ∈ loopTypes then [.loop]
  else if type = "IfStatement" then [.branch]
  else if type = "ForStatement" ∧ (Json.field "test" (.obj fields)).isNode = true then [.counted]
  else if type = "CallExpression" ∧ (Json.field "callee" (.obj fields)).isConsoleMethod = true then [.print]
  else []

/-- The probes that a program calls for, each with whether it is in the pattern of a declarator. -/
def constructs : Survey Bool (Bool × ProbeKind) where
  own inPattern type fields := (wanted type fields).map (inPattern, ·)
  next inPattern type _ key := some (inPattern || (type == "VariableDeclarator" && key == "id"))

def constructsOf (tree : Json) : List (Bool × ProbeKind) := constructs.collect false tree

/-- The kind of probe that a call is, if it is one. -/
def probeKind (e : Json) : Option ProbeKind :=
  if e.calls recordName then
    match recordedKind e with
    | .call => some .call
    | .throw => some .throw
    | .test => some .counted
    | .note "class" => some .declaredClass
    | .note "loop" => some .loop
    | _ => none
  else if e.calls testName then some .branch
  else if e.calls printName then some .print
  else none

/-- The probes in a program. -/
def probes : Survey Unit ProbeKind where
  own _ type fields := if type = "CallExpression" then (probeKind (.obj fields)).toList else []
  next _ _ _ _ := some ()

def probesOf (out : Json) : List ProbeKind := probes.collect () out

end Rewriting

/-! ## Probes of records -/

theorem probes_plain : probes.Plain () where
  own := by
    intro type hmem fields
    have hall : ∀ type ∈ flatTypes, type ≠ "CallExpression" := by decide
    exact if_neg (hall type hmem)
  next _ _ _ _ := rfl
  clauses _ := rfl
  inside _ _ _ _ := rfl
  quiet := by
    intro name hname arguments
    simp only [List.mem_cons, List.not_mem_nil, or_false] at hname
    rcases hname with rfl | rfl <;> rfl
  records := by
    intro kind hkind line pairs
    simp only [List.mem_cons, List.not_mem_nil, or_false] at hkind
    rcases hkind with rfl | rfl | rfl | rfl <;> rfl

theorem probes_declared (line name : Json) : probes.collect () (declared line name) = [.declaredClass] :=
  (probes_plain.collect_literals "class" line [("className", name)]).trans rfl

theorem probes_thrown (line name : Json) : probes.collect () (thrown line name) = [.throw] :=
  (probes_plain.collect_literals "throw" line [("name", name)]).trans rfl

theorem probes_functionBody (line endLine name : Json) (params statements : List Json) :
    probes.collect () (.arr (functionBody line endLine name params statements)) =
      probes.collect () (.arr (statements.takeWhile isDirective)) ++
        (.call :: (probes.collect () (.arr (statements.dropWhile isDirective)) ++ [.throw])) := by
  rw [probes_plain.collect_functionBody, probes_plain.collect_called, probes_plain.collect_handler, probes_thrown]
  rfl

/-! ## What nodes are told by -/

section Nodes

variable {fields : Fields Json} {type : String}

/-- The line of a node is known, or told to be unknown. -/
theorem exists_line (hproper : (Json.obj fields).Proper) (htype : Fields.type? fields = some type) :
    ∃ line, Node.line (.obj fields) = .ok line := by
  have hfits := loc_fits hproper htype
  rw [Node.line, Node.position, if_pos (Json.isNode_of_type? (j := .obj fields) htype)]
  cases hloc : Json.field "loc" (.obj fields) with
  | null => exact ⟨_, rfl⟩
  | obj position =>
    rw [hloc] at hfits
    have hstart : Slot.isPlace (Fields.get? "start" position) = true := (Bool.and_eq_true_iff.1 hfits).1
    cases hvalue : Fields.get? "start" position with
    | none => rw [hvalue] at hstart; cases hstart
    | some start =>
      rw [hvalue] at hstart
      cases start with
      | obj place =>
        rw [Node.lineOf, Node.lineAt]
        cases position with
        | nil => exact ⟨_, rfl⟩
        | cons f rest =>
          rw [layer_json_obj, Layer.optional, hvalue]
          cases place with
          | nil => exact ⟨_, rfl⟩
          | cons g rest' => exact ⟨_, rfl⟩
      | _ => cases hstart
  | _ => rw [hloc] at hfits; cases hfits

/-- The record before a statement: that of the class, if the statement declares one. -/
theorem probes_declares (hproper : (Json.obj fields).Proper) :
    probes.collect () (.arr (Json.obj fields).declares) =
      if Fields.type? fields = some "ClassDeclaration" then [.declaredClass] else [] := by
  by_cases htype : Fields.type? fields = some "ClassDeclaration"
  · obtain ⟨line, hline⟩ := exists_line hproper htype
    obtain ⟨name, hname⟩ : ∃ name, (if (Json.field "id" (.obj fields)).truthy then
        (layer (Json.field "id" (.obj fields))).require "name" else .ok (.str "AnonymousClass")) = .ok name := by
      rcases Json.fits_optional (hproper.fits "id" htype rfl rfl) with h | h | ⟨id, itype, h, hitype, hmem⟩
      · rw [Json.field, Json.get?, h]
        exact ⟨_, rfl⟩
      · rw [Json.field_of_get? h]
        exact ⟨_, rfl⟩
      · obtain ⟨s, hs⟩ := Json.fits_text ((hproper.field h).fits "name" (List.mem_singleton.1 hmem ▸ hitype) rfl rfl)
        rw [Json.field_of_get? h, layer_json_obj, Layer.require_of_get? hs]
        split <;> exact ⟨_, rfl⟩
    have hdeclares : (Json.obj fields).declares = [declared line name] := by
      rw [Json.declares, if_pos htype]
      simp only [hname, hline]
      rfl
    rw [hdeclares, collect_singleton rfl, probes_declared, if_pos htype]
  · rw [if_neg htype, declares_eq_nil (v := .obj fields) htype]
    rfl

/-- A method of the console that prints is taken for one. -/
theorem isConsole_of_method (hproper : (Json.obj fields).Proper) (htype : Fields.type? fields = some type)
    (h : (Json.obj fields).isConsoleMethod = true) : Visit.isConsole (.obj fields) = .ok true := by
  simp only [Json.isConsoleMethod, Json.isIdentifier, Bool.and_eq_true, beq_iff_eq, Bool.not_eq_true'] at h
  obtain ⟨⟨⟨hmember, hcomputed⟩, hobject, hconsole⟩, hmethod⟩ := h
  obtain rfl : type = "MemberExpression" := Option.some.inj (htype.symm.trans hmember)
  obtain ⟨object, -, hget, hotype, -⟩ := Json.fits_node (hproper.fits "object" htype rfl rfl)
  obtain ⟨property, -, hget', -, -⟩ := Json.fits_node (hproper.fits "property" htype rfl rfl)
  rw [Json.field_of_get? hget] at hobject hconsole
  rw [Json.field_of_get? hget'] at hmethod
  have hflag : (layer (Json.obj fields)).flag "computed" = .ok false := by
    have hok : ∃ b, (layer (Json.obj fields)).flag "computed" = .ok b := ⟨_, rfl⟩
    obtain ⟨b, hb⟩ := hok
    rw [hb, ← Json.flag_eq_ok hb, hcomputed]
  have hplain (node : Fields Json) (key : String) : ∃ o, (layer (Json.obj node)).optional key = .ok o := ⟨_, rfl⟩
  obtain ⟨otype, hotype'⟩ := hplain object "type"
  obtain ⟨name, hname⟩ := hplain property "name"
  obtain ⟨console, hrequire, hstring⟩ : ∃ console, (layer (Json.obj object)).require "name" = .ok console ∧
      console.string? = some "console" := by
    rw [Json.field, Json.get?] at hconsole
    cases hv : Fields.get? "name" object with
    | none => rw [hv] at hconsole; cases hconsole
    | some v =>
      rw [hv] at hconsole
      obtain ⟨s, hs, he⟩ := (Option.any_eq_true _ _).1 hconsole
      exact ⟨v, by rw [layer_json_obj, Layer.require_of_get? hv], by rw [show v.string? = some s from hs, beq_iff_eq.1 he]⟩
  have htypeText : otype.bind Json.string? = some "Identifier" := by
    rw [string?_of_optional hotype', Json.field_of_get? (Fields.get?_of_type? hobject)]
    rfl
  have hnameText : (name.bind Json.string?).map Visit.printMethods.contains = some true := by
    rw [string?_of_optional hname]
    obtain ⟨s, hs, he⟩ := (Option.any_eq_true _ _).1 hmethod
    rw [hs, Option.map_some]
    exact congrArg some he
  rw [Visit.isConsole, Json.hasType_json htype, ok_bind, hflag, ok_bind, if_neg (by simp)]
  rw [layer_json_obj, Layer.require_of_get? hget, ok_bind]
  dsimp only
  rw [hotype', ok_bind, htypeText, if_neg (by simp), hrequire, ok_bind,
    hstring, if_neg (by simp), Layer.require_of_get? hget', ok_bind, hname, ok_bind, hnameText]
  rfl

theorem isConsoleMethod_eq (hproper : (Json.obj fields).Proper) (htype : Fields.type? fields = some type) {b : Bool}
    (h : Visit.isConsole (.obj fields) = .ok b) : (Json.obj fields).isConsoleMethod = b := by
  cases b with
  | true =>
    obtain ⟨rfl, hcomputed, object, property, hobject, hotype, honame, hproperty, hprints⟩ := exists_of_isConsole hproper htype h
    have hconsole : (Json.obj object).isIdentifier (· == "console") = true := by
      rw [Json.isIdentifier, show (Json.obj object).type? = some "Identifier" from hotype, Json.field_of_get? honame]
      rfl
    rw [Json.isConsoleMethod, show (Json.obj fields).type? = some "MemberExpression" from htype, hcomputed,
      Json.field_of_get? hobject, hconsole, Json.field_of_get? hproperty]
    exact hprints
  | false =>
    cases hmethod : (Json.obj fields).isConsoleMethod with
    | false => rfl
    | true => cases (isConsole_of_method hproper htype hmethod).symm.trans h

end Nodes

/-! ## Counting -/

section Counts

variable {α β : Type} [BEq α] [BEq β] {a : α} {b : β}

/-- What is collected from two lists of fields with the same names, when under each name the second has some more. -/
theorem count_fields {f : String → Json → List α} {g e : String → Json → List β} : ∀ {as bs : Fields Json},
    Fields.names bs = Fields.names as → (Fields.names as).Nodup →
      (∀ key v w, Fields.get? key as = some v → Fields.get? key bs = some w →
        (g key w).count b = (f key v).count a + (e key v).count b) →
      (bs.flatMap fun p => g p.1 p.2).count b =
        (as.flatMap fun p => f p.1 p.2).count a + (as.flatMap fun p => e p.1 p.2).count b
  | [], [], _, _, _ => rfl
  | (k, v) :: as, (k', w) :: bs, hnames, hnd, h => by
    obtain ⟨rfl, hrest⟩ : k' = k ∧ Fields.names bs = Fields.names as := by simpa [Fields.names] using hnames
    obtain ⟨hk, hnd⟩ := List.nodup_cons.1 hnd
    have hfirst := h k' v w (if_pos rfl) (if_pos rfl)
    have hbelow := count_fields (f := f) (g := g) (e := e) hrest hnd fun key v' w' hv hw => by
      have hne : k' ≠ key := by
        rintro rfl
        exact hk (Fields.mem_names_of_get? hv)
      exact h key v' w' (by rw [Fields.get?, if_neg hne, hv]) (by rw [Fields.get?, if_neg hne, hw])
    simp only [List.flatMap_cons, List.count_append, hfirst, hbelow]
    omega

/-- What is collected from two lists item by item, when each item of the second has some less. -/
theorem count_items {f : Json → List α} {g e : Json → List β} : ∀ {vs ws : List Json}, vs.length = ws.length →
    (∀ p ∈ vs.zip ws, (g p.2).count b + (e p.1).count b = (f p.1).count a) →
      (ws.flatMap g).count b + (vs.flatMap e).count b = (vs.flatMap f).count a
  | [], [], _, _ => rfl
  | v :: vs, w :: ws, hlen, h => by
    have hfirst := h (v, w) List.mem_cons_self
    have hbelow := count_items (f := f) (g := g) (e := e) (Nat.succ.inj hlen) fun p hp => h p (List.mem_cons_of_mem _ hp)
    simp only [List.flatMap_cons, List.count_append] at hfirst ⊢
    omega

end Counts

/-! ## What a program calls for -/

section Constructs

variable {inPattern : Bool} {type key : String} {fields : Fields Json} {v : Json} {kind : ProbeKind}

theorem constructs_part (hkey : ¬ (key = "loc" ∨ key = "range")) (hid : ¬ (type = "VariableDeclarator" ∧ key = "id")) :
    constructs.part inPattern type fields key v = constructs.collect inPattern v :=
  part_of_next hkey (by simp [constructs, hid]) v

theorem probes_part (hkey : ¬ (key = "loc" ∨ key = "range")) : probes.part () type fields key v = probes.collect () v :=
  part_of_next hkey rfl v

/-- Making a field ready adds nothing that calls for probes. -/
theorem constructs_readyField : constructs.collect inPattern (readyField type key v) = constructs.collect inPattern v := by
  have hmade : ∀ t ∈ madeTypes, t ≠ "VariableDeclarator" := by decide
  refine collect_readyField (fun t ht fields => ?_) (fun t ht fields key => ?_) type key v
  · simp only [madeTypes, List.mem_cons, List.not_mem_nil, or_false] at ht
    rcases ht with rfl | rfl <;> rfl
  · simp [constructs, hmade t ht]

/-- What stands in the pattern of a declarator is told apart. -/
theorem count_inPattern (hproper : v.Proper) : (constructs.collect true v).count (false, kind) = 0 := by
  refine List.count_eq_zero.2 fun hmem => ?_
  have hall := forall_collect (S := constructs) (I := (· = true)) (Q := fun a => a.1 = true)
    (fun c type fields key c' hc hnext => by
      subst hc
      exact (Option.some.inj hnext).symm)
    (fun c type fields hc _ _ a ha => by
      obtain ⟨kind, -, rfl⟩ := List.mem_map.1 ha
      exact hc) true v rfl hproper _ hmem
  cases hall

/-- A field that is kept calls for nothing outside of patterns. -/
theorem count_kept (hproper : (Json.obj fields).Proper) (htype : Fields.type? fields = some type)
    (hv : Fields.get? key fields = some v) (hmode : mode type fields key = .kept) :
    (constructs.part false type fields key v).count (false, kind) = 0 := by
  by_cases hposition : key = "loc" ∨ key = "range"
  · rw [part, if_pos hposition]
    rfl
  by_cases hid : type = "VariableDeclarator" ∧ key = "id"
  · have hnext : constructs.next false type fields key = some true := by rw [hid.1, hid.2]; rfl
    rw [part_of_next hposition hnext]
    exact count_inPattern (hproper.field hv)
  rw [constructs_part hposition hid]
  rcases leaf_of_kept hproper htype hv hmode hposition hid with h | ⟨leaf, t, rfl, hleaf, ht⟩
  · rw [collect_inert h]
    rfl
  · rw [collect_leaf hleaf ht]
    simp only [leafTypes, List.mem_cons, List.not_mem_nil, or_false] at ht
    rcases ht with rfl | rfl <;> rfl

end Constructs

/-- A program without the names of the runtime has no probes. -/
theorem probes_unreserved {v : Json} (h : v.Unreserved) : probes.collect () v = [] := by
  refine List.eq_nil_iff_forall_not_mem.2 (forall_collect (I := fun _ => True) (Q := fun _ => False) (fun _ _ _ _ _ _ _ => trivial)
    (fun _ type fields _ _ hnames a ha => ?_) () v trivial h)
  have hcalls {name : String} (hname : Json.isReserved name = true) : (Json.obj fields).calls name = false :=
    Json.Unreserved.calls hnames hname
  have hkind : probeKind (.obj fields) = none := by
    rw [probeKind, hcalls rfl, hcalls rfl, hcalls rfl]
    rfl
  simp only [probes, hkind, Option.toList_none, ite_self, List.not_mem_nil] at ha

/-! ## Where probes are put -/

/-- The field that the probes of a node are put into. -/
def carrier (type : String) : Option String := ofGroup type [("ForStatement" :: loopTypes ++ functionTypes, "body"), (["IfStatement"], "test")]

/-- The probes that are put into a field. -/
def carried (type : String) (fields : Fields Json) (key : String) : List ProbeKind :=
  if carrier type = some key then wanted type fields else []

section Frames

variable {code : Option String} {classes : List Json} {up : Option Json} {type key : String} {fields made : Fields Json}
  {kind : ProbeKind}

/-- Fields that carry no probes of their node are not framed with any. -/
theorem carried_eq_nil (h : frameKind type key ∉ [.test, .iteration, .counted, .function]) : carried type fields key = [] := by
  refine if_neg fun hcarrier => h ?_
  obtain ⟨g, hg, hmem, rfl⟩ := ofGroup_mem_types hcarrier
  have hall : ∀ g ∈ [("ForStatement" :: loopTypes ++ functionTypes, "body"), (["IfStatement"], "test")], ∀ t ∈ g.1,
      frameKind t g.2 ∈ [FrameKind.test, .iteration, .counted, .function] := by decide
  exact hall g hg type hmem

/-- The types of the fields that are framed with probes of their node. -/
theorem frameKind_carrier (h : frameKind type key ∈ [.test, .iteration, .counted, .function]) : carrier type = some key ∧
    ((frameKind type key = .test → type = "IfStatement") ∧ (frameKind type key = .iteration → type ∈ loopTypes) ∧
      (frameKind type key = .counted → type = "ForStatement") ∧ (frameKind type key = .function → type ∈ functionTypes)) := by
  have hall : ∀ g ∈ frameTable, ∀ e ∈ g.2, e.2 ∈ [FrameKind.test, .iteration, .counted, .function] → ∀ t ∈ g.1,
      carrier t = some e.1 ∧ ((e.2 = .test → t = "IfStatement") ∧ (e.2 = .iteration → t ∈ loopTypes) ∧
        (e.2 = .counted → t = "ForStatement") ∧ (e.2 = .function → t ∈ functionTypes)) := by decide
  obtain ⟨g, hg, hmem, hentry⟩ := exists_of_frameKind rfl fun hsame => absurd (hsame ▸ h) (by decide)
  exact hall g hg _ hentry h type hmem

theorem wanted_loop (h : type ∈ loopTypes) : wanted type fields = [.loop] := by
  have hall : ∀ type ∈ loopTypes, type ∉ functionTypes ∧ type ≠ "ClassDeclaration" := by decide
  obtain ⟨hfunction, hclass⟩ := hall type h
  rw [wanted, if_neg hfunction, if_neg hclass, if_pos h]

theorem wanted_counted (fields : Fields Json) :
    wanted "ForStatement" fields = if (Json.field "test" (.obj fields)).isNode = true then [.counted] else [] := by
  simp [wanted, functionTypes, loopTypes]

/-- A body that is framed has the probes of its node besides. -/
theorem count_body {k : FrameKind} {block bmade plain : Fields Json} {bname : Json} {w o : Json} {classes' : List Json}
    {up' : Option Json} (hframe : Rewriting.Frame code classes up type fields made k w o) (hkind : frameKind type key = k)
    (hbody : k ∈ [.iteration, .counted, .function]) (hw : w = .obj plain)
    (hblock : RewrittenNode code classes' up' "BlockStatement" bname block bmade plain) :
    (probes.collect () o).count kind = (probes.collect () w).count kind + (carried type fields key).count kind := by
  have hkinds : frameKind type key ∈ [.test, .iteration, .counted, .function] := by
    rw [hkind]
    exact List.mem_cons_of_mem _ hbody
  obtain ⟨hcarrier, -, hloop, hfor, hfunction⟩ := frameKind_carrier hkinds
  rw [hkind] at hloop hfor hfunction
  obtain ⟨ss, ts, -, hitems, -⟩ := hblock.exists_weave "body" rfl
  generalize weave ss ts = items at hitems
  have hlist (items : List Json) : probes.collect () (.obj (Fields.set "body" (.arr items) plain)) =
      probes.collect () (.arr items) := (collect_rewrittenBlock items hblock rfl).trans rfl
  have hplain : probes.collect () w = probes.collect () (.arr items) := by
    rw [hw, ← hlist items, Fields.set_of_get? hitems]
  have hframed (f : List Json → List Json) : probes.collect () (onList "body" f w) = probes.collect () (.arr (f items)) := by
    rw [hw, onList_obj f hitems, hlist]
  rw [carried, if_pos hcarrier, hplain]
  cases hframe with
  | same | result | test | printer | callee | printed | arguments | noInit | initNothing | initDeclared | initAssigned | initShown
    | noUpdate | updateNothing | updated => simp at hbody
  | uncounted _ htest =>
    rw [hplain, hfor rfl, wanted_counted, if_neg (by rw [htest]; decide)]
    rfl
  | iteration line _ records hline hrecords =>
    have hrecord : probes.collect () (Probe.statement "loop" line [("loopType", .literal (.str (Visit.loopTag type)))]) = [.loop] :=
      (probes_plain.collect_literals "loop" line [("loopType", .str (Visit.loopTag type))]).trans rfl
    have hsilent : probes.collect () (.arr records) = [] := collect_silent fun r hr => by
      obtain ⟨kind, hkind, line, targets, htargets, rfl⟩ := exists_of_mem_iteration hrecords hr
      rw [localsStatement, probes_plain.collect_expressionStatement, probes_plain.collect_locals hkind line htargets]
    rw [hframed, ← List.singleton_append, List.append_assoc, collect_append, collect_append, hsilent, collect_singleton rfl, hrecord,
      wanted_loop (hloop rfl), List.count_append, List.nil_append, Nat.add_comm]
  | counted line _ text hline htest =>
    have hrecord : probes.collect () (Probe.statement "test" line [("expression", .literal (.str text)),
        ("result", .literal (.bool true))]) = [.counted] :=
      (probes_plain.collect_literals "test" line [("expression", .str text), ("result", .bool true)]).trans rfl
    rw [hframed, ← List.singleton_append, collect_append, collect_singleton rfl, hrecord, hfor rfl, wanted_counted, if_pos htest,
      List.count_append, Nat.add_comm]
  | function line endLine name _ params =>
    rw [hframed, probes_functionBody, wanted, if_pos (hfunction rfl),
      ← List.takeWhile_append_dropWhile (p := isDirective) (l := items), collect_append]
    simp only [List.takeWhile_append_dropWhile, List.count_append, List.count_cons, List.count_nil]
    omega

end Frames

/-! ## Rewritten values -/

/-- The probes that are put beside a value, by the list of statements that it stands in. -/
def beside (v : Json) : List ProbeKind := if v.type? = some "ClassDeclaration" then [.declaredClass] else []

/-- The same of a list, all items together. -/
def besideIn : Json → List ProbeKind
  | .arr items => items.flatMap beside
  | v => beside v

/-- What is shown by induction of a value and what it becomes. A list of statements brings the probes beside them. -/
def ProbesCounted (kind : ProbeKind) (m : Mode) (v w : Json) : Prop :=
  m ≠ .kept → v.Unreserved → (probes.collect () w).count kind + (if m = .visited then (besideIn v).count kind else 0) =
    (constructs.collect false v).count (false, kind)

theorem beside_eq_nil {v : Json} (h : v.isOneOf ["ClassDeclaration"] = false) : beside v = [] := by
  refine if_neg fun htype => ?_
  rw [Json.isOneOf, htype] at h
  cases h

theorem besideIn_eq_nil {v : Json} (h : v.isOneOf ["ClassDeclaration"] = false ∧
    ∀ items, v = .arr items → ∀ x ∈ items, x.isOneOf ["ClassDeclaration"] = false) : besideIn v = [] := by
  cases v with
  | arr items => exact List.flatMap_eq_nil_iff.2 fun x hx => beside_eq_nil (h.2 items rfl x hx)
  | _ => exact beside_eq_nil h.1

section Nodes

variable {code : Option String} {classes : List Json} {up : Option Json} {type key : String} {name : Json}
  {fields made out : Fields Json} {kind : ProbeKind}

/-- Classes are declared in lists of statements only. -/
theorem beside_readyField (hproper : (Json.obj fields).Proper) (htype : Fields.type? fields = some type)
    (hmode : mode type fields key = .visited) {v : Json} (hv : Fields.get? key (completed type fields) = some v) :
    besideIn (readyField type key v) = [] := by
  have hplain : besideIn v = [] := by
    rcases get?_of_completed hv with hv | rfl | rfl
    · by_cases hposition : key = "loc" ∨ key = "range"
      · rw [mode_position hposition] at hmode
        cases hmode
      refine besideIn_eq_nil (hproper.not_bound htype (not_or.1 hposition) (fun slots slot hshape hslot => ?_) hv)
      have hall : ∀ row ∈ Grammar.table, ∀ t ∈ row.1, ∀ slot ∈ row.2,
          (t, slot.1) ∈ [("Program", "body"), ("BlockStatement", "body"), ("SwitchCase", "consequent")] ∨
            (∀ b ∈ ["ClassDeclaration"], b ∉ slot.2.types) ∧ slot.2.isPlacement = false := by decide
      obtain ⟨row, hrow, hmem, rfl⟩ := ofGroup_mem_types hshape
      refine (hall row hrow type hmem _ (Fields.mem_of_get? hslot)).resolve_left fun hlist => ?_
      rw [mode, if_pos hlist] at hmode
      cases hmode
    · rfl
    · rfl
  have hasBlock : besideIn (asBlock v) = [] := by
    unfold asBlock
    split
    · rfl
    · exact hplain
  unfold readyField
  split
  · exact hasBlock
  · split
    · exact hasBlock
    · split
      · unfold bodyBlock
        split
        · exact hplain
        · rfl
      · exact hplain

/-- Positions carry no probes. -/
theorem carried_position (hposition : key = "loc" ∨ key = "range") : carried type fields key = [] := by
  have hkeys : key ∉ ["body", "test"] := by rcases hposition with rfl | rfl <;> decide
  refine if_neg fun hcarrier => ?_
  obtain ⟨g, hg, -, rfl⟩ := ofGroup_mem_types hcarrier
  simp only [List.mem_cons, List.not_mem_nil, or_false] at hg
  rcases hg with rfl | rfl <;> exact absurd hkeys (by decide)

section Field

variable (hnode : RewrittenNode code classes up type name fields made out) {v w o : Json}
  (hv : Fields.get? key (completed type fields) = some v)
  (hframe : Rewriting.Frame code classes up type fields made (frameKind type key) w o)

include hnode hv hframe

/-- A field that is kept calls for nothing, and has no probes. -/
theorem RewrittenNode.count_field_kept (hvnames : v.Unreserved) (hmode : mode type fields key = .kept)
    (hw : w = readyField type key v) : (probes.collect () o).count kind =
      (constructs.part false type fields key v).count (false, kind) + (carried type fields key).count kind := by
  have hsame : frameKind type key = .same := by
    by_contra h
    rw [mode_of_framed h] at hmode
    cases hmode
  rw [hsame, Rewriting.Frame.same_iff] at hframe
  have hnothing : (constructs.part false type fields key v).count (false, kind) = 0 := by
    rcases get?_of_completed hv with hv | rfl | rfl
    · exact count_kept hnode.proper hnode.type hv hmode
    · rw [part_inert rfl]
      rfl
    · rw [part_inert rfl]
      rfl
  rw [hframe, hw, probes_unreserved (readyField_unreserved hvnames), carried_eq_nil (by rw [hsame]; decide), hnothing]
  rfl

/-- The condition of an `if` is put into the call that records the test. -/
theorem RewrittenNode.count_test (htest : frameKind type key = .test)
    (hrw : Rewrites code .visited (classesAt classes type key name) (some (.obj fields)) (readyField type key v) w)
    (hbelow : (probes.collect () w).count kind = (constructs.collect false v).count (false, kind)) :
    (probes.collect () o).count kind =
      (constructs.collect false v).count (false, kind) + (carried type fields key).count kind := by
  have hlist := hnode.ne_arr hv hrw (by rw [htest]; decide) (by rw [htest]; decide)
  obtain ⟨hcarrier, htype, -⟩ := frameKind_carrier (by rw [htest]; decide : frameKind type key ∈ [.test, .iteration, .counted, .function])
  obtain rfl := htype htest
  rw [htest] at hframe
  obtain ⟨line, text, rfl⟩ : ∃ line text, o = wrapped testName [.literal (.str text), .literal line] w := by
    cases hframe with
    | test line _ text => exact ⟨line, text, rfl⟩
  rw [show wrapped testName [.literal (.str text), .literal line] w =
      wrapped testName ([.str text, line].map .literal) w from rfl, probes_plain.collect_wrapped _ _ hlist,
    List.count_append, hbelow, carried, if_pos hcarrier, Nat.add_comm]
  rfl

/-- A field that is visited has the probes that it called for, and those of the node that are put into it. -/
theorem RewrittenNode.count_field_visited
    (hrw : Rewrites code .visited (classesAt classes type key name) (some (.obj fields)) (readyField type key v) w)
    (hbelow : (probes.collect () w).count kind = (constructs.collect false v).count (false, kind)) :
    (probes.collect () o).count kind =
      (constructs.collect false v).count (false, kind) + (carried type fields key).count kind := by
  by_cases hbody : frameKind type key ∈ [.iteration, .counted, .function]
  · obtain ⟨-, block, hready, htype⟩ := exists_block_of_body hnode.proper hnode.type hbody hv
    rw [hready] at hrw
    obtain ⟨bname, bmade, plain, rfl, hblock⟩ := hrw.exists_node htype
    rw [count_body hframe rfl hbody rfl hblock, hbelow]
  by_cases htest : frameKind type key = .test
  · exact hnode.count_test hv hframe htest hrw hbelow
  have hplain : frameKind type key ∉ [.test, .iteration, .counted, .function] := by simpa [htest] using hbody
  rw [carried_eq_nil hplain, List.count_nil, Nat.add_zero, ← hbelow]
  by_cases hprints : frameKind type key = .callee ∧ Visit.isConsole (Json.field "callee" (.obj fields)) = .ok true
  · obtain ⟨callee, ctype, rfl, hproper, hctype, hconsole, rfl, hready⟩ := hnode.exists_printer hv hframe hprints.1 hprints.2
    rw [hbelow, collect_console hproper hctype hconsole rfl fun _ _ _ _ => rfl, probes_plain.collect_ident]
    rfl
  · rw [probes_plain.collect_frame hframe hnode.proper hplain (fun hk hp => hprints ⟨hk, hp⟩) (hnode.ne_arr hv hrw hbody)
      (hrw.type?_init hv)]

end Field

/-- A field of a rewritten node has the probes that the field called for, and those of the node that are put into it. -/
theorem RewrittenNode.count_field (hnode : RewrittenNode code classes up type name fields made out)
    (ih : ∀ key v w, Fields.get? key (prepared type fields) = some v → Fields.get? key made = some w →
      ProbesCounted kind (mode type fields key) v w) (hnames : (Json.obj fields).Unreserved) {v o : Json}
    (hv : Fields.get? key (completed type fields) = some v) (ho : Fields.get? key out = some o) :
    (probes.part () type out key o).count kind =
      (constructs.part false type fields key v).count (false, kind) + (carried type fields key).count kind := by
  obtain ⟨w, hprepared, hw, hframe⟩ := hnode.exists_made hv ho
  have hrw := hnode.field key _ w hprepared hw
  have hih := ih key _ w hprepared hw
  have hvnames : v.Unreserved := completed_unreserved hnames hv
  by_cases hposition : key = "loc" ∨ key = "range"
  · rw [part, part, if_pos hposition, if_pos hposition, carried_position hposition]
    rfl
  rw [probes_part hposition]
  have hid (hkept : mode type fields key ≠ .kept) : ¬ (type = "VariableDeclarator" ∧ key = "id") := by
    rintro ⟨rfl, rfl⟩
    exact hkept rfl
  cases hmode : mode type fields key with
  | kept =>
    rw [hmode] at hrw
    refine hnode.count_field_kept hv hframe hvnames hmode ?_
    cases hrw
    rfl
  | statements =>
    obtain ⟨hsame, hready⟩ := frame_of_statements hmode
    rw [hsame, Rewriting.Frame.same_iff] at hframe
    rw [hmode, hready] at hih
    rw [hframe, constructs_part hposition (hid (by rw [hmode]; decide)), carried_eq_nil (by rw [hsame]; decide),
      ← hih (by decide) hvnames]
    rfl
  | visited =>
    rw [hmode] at hrw hih
    rw [constructs_part hposition (hid (by rw [hmode]; decide))]
    refine hnode.count_field_visited hv hframe hrw ?_
    -- what the field calls for it called for before it was made ready
    have hih := hih (by decide) (readyField_unreserved hvnames)
    rwa [if_pos rfl, beside_readyField hnode.proper hnode.type hmode hv, List.count_nil, Nat.add_zero, constructs_readyField] at hih

/-- The probes of a node are put into its carrier, if it has one. -/
theorem flatMap_carried (hproper : (Json.obj fields).Proper) (htype : Fields.type? fields = some type) :
    (completed type fields).flatMap (fun p => carried type fields p.1) = if carrier type = none then [] else wanted type fields := by
  cases hcarrier : carrier type with
  | none =>
    rw [if_pos rfl, List.flatMap_eq_nil_iff]
    intro p _
    rw [carried, hcarrier, if_neg (by simp)]
  | some key =>
    rw [if_neg (by simp), Fields.flatMap_eq_of_key (f := fun key _ => carried type fields key) key (nodup_completed hproper.nodup)]
    · obtain ⟨g, hg, hmem, rfl⟩ := ofGroup_mem_types hcarrier
      have hall : ∀ g ∈ [("ForStatement" :: loopTypes ++ functionTypes, "body"), (["IfStatement"], "test")], ∀ t ∈ g.1,
          g.2 ∉ ["argument", "expression"] ∧ ∀ row ∈ Grammar.table, t ∈ row.1 →
            (Fields.get? g.2 row.2).any Slot.isNode = true := by decide
      obtain ⟨hne, hrows⟩ := hall g hg type hmem
      obtain ⟨body, -, hbody, -⟩ := hproper.exists_node htype hrows
      rw [get?_completed_of_ne hne, hbody, Option.map_some, Option.getD_some, carried, if_pos hcarrier]
    · intro k v _ hk
      rw [carried, hcarrier, if_neg (by simpa using Ne.symm hk)]

/-- The probes of a node that has no carrier. -/
theorem wanted_of_carrier (h : carrier type = none) : wanted type fields =
    if type = "ClassDeclaration" then [.declaredClass]
    else if type = "CallExpression" ∧ (Json.field "callee" (.obj fields)).isConsoleMethod = true then [.print] else [] := by
  have hall : ∀ t ∈ "ForStatement" :: "IfStatement" :: loopTypes ++ functionTypes, carrier t ≠ none := by decide
  have hnot : type ∉ "ForStatement" :: "IfStatement" :: loopTypes ++ functionTypes := fun hmem => hall type hmem h
  simp only [List.cons_append, List.mem_cons, List.mem_append, not_or] at hnot
  obtain ⟨hfor, hif, hloop, hfunction⟩ := hnot
  simp only [wanted, if_neg hfunction, if_neg hloop, if_neg hif, hfor, false_and, if_false]

/-- A call that is rewritten is a probe if it is one of the console. -/
theorem RewrittenNode.probeKind_eq (hnode : RewrittenNode code classes up "CallExpression" name fields made out)
    (hnames : (Json.obj fields).Unreserved) : probeKind (.obj out) =
      if (Json.field "callee" (.obj fields)).isConsoleMethod = true then some .print else none := by
  have hcalls {called : String} (hne : called ≠ printName) (hreserved : Json.isReserved called = true) :
      (Json.obj out).calls called = false := by
    rw [calls_rewritten hne hnode.proper hnode.rewrites]
    exact hnames.calls hreserved
  obtain ⟨callee, ctype, hcallee, hctype, -⟩ := Json.fits_node (hnode.proper.fits "callee" hnode.type rfl rfl)
  have hcompleted : Fields.get? "callee" (completed "CallExpression" fields) = some (.obj callee) :=
    get?_completed (by decide) hcallee
  obtain ⟨o, ho⟩ := Fields.exists_get?_of_names hnode.names_completed hcompleted
  obtain ⟨w, hprepared, hw, hframe⟩ := hnode.exists_made hcompleted ho
  have hrw := hnode.field _ _ _ hprepared hw
  rw [readyField_eq_self (by decide)] at hrw
  have hprint : (Json.obj out).calls printName = (Json.field "callee" (.obj fields)).isConsoleMethod := by
    rw [Json.calls, show (Json.obj out).type? = some "CallExpression" from hnode.type?_out, Json.field_of_get? ho]
    rw [show frameKind "CallExpression" "callee" = .callee from rfl] at hframe
    cases hframe with
    | printer _ hprints =>
      rw [Json.field_of_get? hcallee] at hprints ⊢
      rw [isConsoleMethod_eq (hnode.proper.field hcallee) hctype hprints]
      rfl
    | callee _ hnot =>
      rw [Json.field_of_get? hcallee] at hnot ⊢
      rw [isConsoleMethod_eq (hnode.proper.field hcallee) hctype hnot, hrw.isIdentifier_eq (mode_ne_statements _ (by decide)),
        (completed_unreserved hnames hcompleted).isIdentifier fun n hn => by rw [beq_iff_eq.1 hn]; rfl]
      rfl
  rw [probeKind, hcalls (by decide) rfl, hcalls (by decide) rfl, hprint]
  rfl

/-- What a rewritten node has of probes by itself, put into its carrier and beside it: those it calls for. -/
theorem RewrittenNode.count_own (kind : ProbeKind) (hnode : RewrittenNode code classes up type name fields made out)
    (hnames : (Json.obj fields).Unreserved) : (probes.own () type out).count kind + (beside (.obj fields)).count kind +
      (if carrier type = none then [] else wanted type fields).count kind = (wanted type fields).count kind := by
  have hbeside : beside (.obj fields) = if type = "ClassDeclaration" then [.declaredClass] else [] := by
    rw [beside, show (Json.obj fields).type? = some type from hnode.type]
    simp
  rw [hbeside]
  by_cases hcarrier : carrier type = none
  · rw [if_pos hcarrier, wanted_of_carrier hcarrier]
    by_cases hcall : type = "CallExpression"
    · subst hcall
      rw [show probes.own () "CallExpression" out = (probeKind (.obj out)).toList from rfl, hnode.probeKind_eq hnames]
      by_cases hmethod : (Json.field "callee" (.obj fields)).isConsoleMethod = true <;> simp [hmethod]
    · rw [show probes.own () type out = [] from if_neg hcall]
      simp [hcall]
  · have hall : ∀ t ∈ ["ClassDeclaration", "CallExpression"], carrier t = none := by decide
    have hnot : type ∉ ["ClassDeclaration", "CallExpression"] := fun hmem => hcarrier (hall type hmem)
    simp only [List.mem_cons, List.not_mem_nil, or_false, not_or] at hnot
    rw [if_neg hcarrier, if_neg hnot.1, show probes.own () type out = [] from if_neg hnot.2]
    simp

end Nodes

section Values

variable {code : Option String} {m : Mode} {classes : List Json} {up : Option Json} {kind : ProbeKind}

/-- A woven list has the probes beside its statements. -/
theorem count_weave : ∀ {ss ts : List Json}, ss.length = ts.length →
    (∀ p ∈ ss.zip ts, p.1.isNode = true → Rewrites code .visited classes none p.1 p.2) →
      (probes.collect () (.arr (weave ss ts))).count kind =
        (probes.collect () (.arr ts)).count kind + (ss.flatMap beside).count kind
  | [], [], _, _ => rfl
  | s :: ss, t :: ts, hlen, h => by
    have hfirst : probes.collect () (.arr s.declares) = beside s := by
      cases hn : s.isNode with
      | false =>
        have htype : s.type? = none := type?_eq_none hn
        rw [declares_eq_nil (by rw [htype]; decide), beside, htype]
        rfl
      | true =>
        cases h (s, t) List.mem_cons_self hn with
        | value _ _ _ hnot => rw [hn] at hnot; cases hnot
        | items => cases hn
        | node _ _ type name fields made out htype hproper => exact probes_declares hproper
    have hbelow : (probes.collect () (.arr (weave ss ts))).count kind =
        (probes.collect () (.arr ts)).count kind + (ss.flatMap beside).count kind :=
      count_weave (Nat.succ.inj hlen) fun p hp => h p (List.mem_cons_of_mem _ hp)
    rw [probes_plain.collect_weave] at hbelow ⊢
    rw [List.zip_cons_cons, List.flatMap_cons, hfirst, show t :: ts = [t] ++ ts from rfl, collect_append, List.flatMap_cons]
    simp only [List.count_append, hbelow]
    omega

/-- Items that are rewritten one by one. -/
theorem count_rewritten {vs ws : List Json} (hlen : vs.length = ws.length)
    (h : ∀ p ∈ vs.zip ws, p.1.isNode = true → Rewrites code .visited classes up p.1 p.2)
    (ih : ∀ p ∈ vs.zip ws, p.1.isNode = true → ProbesCounted kind .visited p.1 p.2)
    (hother : ∀ p ∈ vs.zip ws, p.1.isNode = false → p.2 = p.1) (hnames : (Json.arr vs).Unreserved) :
    (probes.collect () (.arr ws)).count kind + (vs.flatMap beside).count kind =
      (constructs.collect false (.arr vs)).count (false, kind) := by
  rw [collect_arr, collect_arr]
  refine count_items (g := fun x => if x.isNode then probes.collect () x else [])
    (f := fun x => if x.isNode then constructs.collect false x else []) hlen fun p hp => ?_
  cases hn : p.1.isNode with
  | false =>
    rw [hother p hp hn, hn, beside, type?_eq_none hn]
    rfl
  | true =>
    rw [(h p hp hn).isNode_eq.trans hn]
    have hcounted := ih p hp hn (by decide) (hnames.item (List.of_mem_zip hp).1)
    obtain ⟨fields, hfields⟩ : ∃ fields, p.1 = .obj fields := by
      cases hv : p.1 with
      | obj fields => exact ⟨fields, rfl⟩
      | _ => rw [hv] at hn; cases hn
    rw [hfields] at hcounted ⊢
    exact hcounted

/-- What becomes of a value has the probes that the value calls for outside of patterns. -/
theorem Rewrites.count_probes {v w : Json} (h : Rewrites code m classes up v w) : ProbesCounted kind m v w := by
  induction h with
  | kept => exact fun hm => absurd rfl hm
  | value classes up v hnode hlist =>
    intro _ _
    have hbeside : besideIn v = [] := by
      cases v with
      | arr items => exact absurd rfl (hlist items)
      | _ => exact beside_eq_nil (by rw [Json.isOneOf, type?_eq_none hnode]; rfl)
    rw [collect_eq_nil hnode hlist, collect_eq_nil hnode hlist, hbeside]
    rfl
  | items classes up vs ws hlen h hother ih =>
    intro _ hnames
    exact count_rewritten hlen h ih hother hnames
  | statements classes up ss ts hlen h hother ih =>
    intro _ hnames
    rw [if_neg (by decide), Nat.add_zero, count_weave hlen h]
    exact count_rewritten hlen h ih hother hnames
  | node classes up type name fields made out htype hproper hname hmade h hout hframe ih =>
    intro _ hnames
    have hnode : RewrittenNode code classes up type name fields made out := ⟨htype, hproper, hname, hmade, hout, h, hframe⟩
    have hown := hnode.count_own kind hnames
    have hwanted : (constructs.own false type fields).count (false, kind) = (wanted type fields).count kind :=
      List.count_map_of_injective (wanted type fields) (fun kind => (false, kind)) (fun a b hab => (Prod.mk.inj hab).2) kind
    rw [if_pos rfl, collect_obj htype, collect_obj hnode.type?_out, List.count_append, List.count_append, hwanted]
    change _ + (beside (.obj fields)).count kind = _
    by_cases hleaf : type ∈ leafTypes
    · have hnone : carrier type = none := by
        have hall : ∀ type ∈ leafTypes, carrier type = none := by decide
        exact hall type hleaf
      rw [if_pos hnone] at hown
      rw [if_pos hleaf, if_pos hleaf, ← hown]
      rfl
    · have hfields := count_fields (f := constructs.part false type fields) (g := probes.part () type out)
        (e := fun key _ => carried type fields key) (a := (false, kind)) (b := kind) hnode.names_completed
        (nodup_completed hproper.nodup) fun key v o hv ho => hnode.count_field ih hnames hv ho
      rw [Survey.flatMap_completed hproper htype, flatMap_carried hproper htype] at hfields
      rw [if_neg hleaf, if_neg hleaf, hfields, ← hown]
      omega

end Values

/-! ## Programs -/

/-- What becomes of a node other than a declaration of a class has the probes for the constructs in it. -/
theorem Rewrites.count_eq {code : Option String} {classes : List Json} {up : Option Json} {v w : Json} {type : String}
    (h : Rewrites code .visited classes up v w) (hnames : v.Unreserved) (htype : v.type? = some type)
    (hclass : type ≠ "ClassDeclaration") (kind : ProbeKind) :
    (probesOf w).count kind = (constructsOf v).count (false, kind) := by
  have hcounted : ProbesCounted kind .visited v w := h.count_probes
  replace hcounted := hcounted (by decide) hnames
  have hbeside : besideIn v = [] := by
    cases v with
    | arr items => cases htype
    | _ => exact beside_eq_nil (by rw [Json.isOneOf, htype, Option.any_some]; simpa using hclass)
  rwa [if_pos rfl, hbeside] at hcounted

/-- An instrumented program has one probe for each construct outside of the patterns of declarators, and no others; where
nothing in those patterns calls for probes, every construct is traced. The same is so of each function that the pass comes to:
what is traced within it has its probes there. -/
theorem instrument_probes {tree out : Json} {code : Option String} (h : tree.WellFormed) (hnames : tree.Unreserved)
    (hrun : instrument tree code = .ok out) :
    (∀ kind, (probesOf out).count kind = (constructsOf tree).count (false, kind)) ∧
      ((∀ c ∈ constructsOf tree, c.1 = false) → (probesOf out).Perm ((constructsOf tree).map Prod.snd)) ∧
      List.Forall₂ (fun l site => ∀ kind, (probesOf (.obj site)).count kind = (constructsOf (.obj l.fields)).count (false, kind))
        (functions tree) (functionSites out) := by
  have hcount (kind : ProbeKind) : (probesOf out).count kind = (constructsOf tree).count (false, kind) :=
    (instrument_rewrites h hrun).count_eq hnames h.1 (by decide) kind
  refine ⟨hcount, fun houtside => List.perm_iff_count.2 fun kind => ?_, ?_⟩
  · have htold : constructsOf tree = ((constructsOf tree).map Prod.snd).map fun kind => (false, kind) := by
      rw [List.map_map]
      exact (List.map_id _).symm.trans (List.map_congr_left fun c hc => Prod.ext (houtside c hc) rfl)
    rw [hcount]
    conv_lhs => rw [htold]
    exact List.count_map_of_injective _ _ (fun a b hab => (Prod.mk.inj hab).2) kind
  · refine (functions_rewritten h hrun).imp fun l site ⟨hl, hrewritten⟩ kind => ?_
    obtain ⟨hl, hfunction⟩ := List.mem_filter.1 hl
    obtain ⟨type, name, made, htype, hnode⟩ := hrewritten.exists_functionNode hfunction
    exact hnode.rewrites.count_eq (everyObject_function tree hnames hl hfunction) hnode.type
      (by rintro rfl; revert htype; decide) kind

theorem instrument_probes_echo : echoProgram.WellFormed ∧ echoProgram.Unreserved ∧
    ∃ out, instrument echoProgram none = .ok out ∧ (probesOf out).Perm [.call, .throw, .branch, .print] := by
  have hwell : echoProgram.WellFormed := by decide +kernel
  have hnames : echoProgram.Unreserved := by decide +kernel
  have hok : (instrument echoProgram none).isOk = true := by decide +kernel
  have hconstructs : constructsOf echoProgram = [.call, .throw, .branch, .print].map fun kind => (false, kind) := by
    decide +kernel
  refine ⟨hwell, hnames, ?_⟩
  cases hrun : instrument echoProgram none with
  | ok out =>
    have hprobes := (instrument_probes hwell hnames hrun).2.1 (by rw [hconstructs]; decide)
    rw [hconstructs] at hprobes
    exact ⟨out, rfl, hprobes⟩
  | error refusal => rw [hrun] at hok; cases hok

/-- A declaration that takes a property of an object, with a function for when there is none. -/
def defaultProgram : Json :=
  let arrow : Json := .obj [("type", .str "ArrowFunctionExpression"), ("id", .null), ("params", .arr []),
    ("body", .literal (.int 1)), ("expression", .bool true), ("generator", .bool false), ("async", .bool false)]
  let property : Json := .obj [("type", .str "Property"), ("key", .ident (.str "a")), ("computed", .bool false),
    ("value", .obj [("type", .str "AssignmentPattern"), ("left", .ident (.str "a")), ("right", arrow)]),
    ("kind", .str "init"), ("method", .bool false), ("shorthand", .bool true)]
  .obj [("type", .str "Program"), ("body", .arr [.obj [("type", .str "VariableDeclaration"), ("declarations", .arr [
      .obj [("type", .str "VariableDeclarator"), ("id", .obj [("type", .str "ObjectPattern"), ("properties", .arr [property])]),
        ("init", .ident (.str "x"))]]), ("kind", .str "let")]]), ("sourceType", .str "script")]

/-- The function in a pattern is not traced. -/
theorem untraced_default : defaultProgram.WellFormed ∧ defaultProgram.Unreserved ∧
    ∃ out, instrument defaultProgram none = .ok out ∧ (constructsOf defaultProgram).map Prod.snd = [.call, .throw] ∧
      probesOf out = [] := by
  have hprobes : (instrument defaultProgram none).toOption.any (fun out => (probesOf out).isEmpty) = true := by decide +kernel
  refine ⟨by decide +kernel, by decide +kernel, ?_⟩
  cases hrun : instrument defaultProgram none with
  | ok out =>
    rw [hrun] at hprobes
    exact ⟨out, rfl, by decide +kernel, List.isEmpty_iff.1 hprobes⟩
  | error refusal => rw [hrun] at hprobes; cases hprobes

end ScriptTrace
