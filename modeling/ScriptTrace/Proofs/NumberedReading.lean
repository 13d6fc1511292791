import ScriptTrace.Proofs.LoopVariables
import ScriptTrace.Proofs.NumberedTrees

/-!
# Reading numbered trees

The functions that read nodes come to the same end for all numbers of earlier loop variables: names, targets and lines
are numbered values again, and the nodes of probes are.

* `Annotated.Numbered` : numbered values with their notes;
* `Json.Numbered.note_induction` : what a rule makes of numbered layers, it makes of numbered values;
* `Json.Numbered.bindingNames`, `Json.Numbered.targetsOf`, `Json.Numbered.functionName` : names and targets;
* `Json.Numbered.lineOf`, `Json.Numbered.sourceText` : positions.
-/

namespace ScriptTrace

/-! ## Notes -/

section Notes

variable {β : Type} {f : Layer (Annotated β) → β} {m d : Nat} {loose : Bool}

/-- Noted values, one for each number of earlier loop variables, that are smaller than `d`; or a string met by a loop. -/
inductive Annotated.Numbered [Inhabited β] (f : Layer (Annotated β) → β) (m d : Nat) : Bool → (Nat → Annotated β) → Prop
  | noted {loose : Bool} {j : Nat → Json} (h : Json.Numbered m loose j) (hsize : sizeOf (j 0) < d) :
      Numbered f m d loose fun c => (j c).annotate f
  | string (s : String) : Numbered f m d false fun _ => Layered.ofString s

theorem Json.Numbered.annotate_layer [Inhabited β] {j : Nat → Json} (h : Json.Numbered m loose j) (hsize : sizeOf (j 0) ≤ d) :
    Layer.Numbered m (Annotated.Numbered f m d) loose fun c => ScriptTrace.layer ((j c).annotate f) := by
  cases h with
  | null => exact .null _
  | bool => exact .bool _ _
  | int => exact .int _ _
  | float => exact .float _ _
  | str => exact .str _ _
  | text h => exact .text h
  | arr _ items h =>
    refine .of_arr (items.map fun x c => (x c).annotate f) (List.forall_mem_map.2 fun x hx => .noted (h x hx) ?_) fun c => ?_
    · have hlt := List.sizeOf_lt_of_mem (List.mem_map_of_mem (f := (· 0)) hx)
      rw [Json.arr.sizeOf_spec] at hsize
      omega
    · rw [layer_annotate_arr]
      exact congrArg Layer.arr (map_at (fun _ => annotate f) items c)
  | obj _ fields h =>
    refine .of_obj (Fields.mapValues (fun x c => (x c).annotate f) fields)
      (List.forall_mem_map.2 fun g hg => .noted (h g hg) ?_) fun c => ?_
    · have hlt := List.sizeOf_lt_of_mem (List.mem_map_of_mem (f := fun g : String × (Nat → Json) => (g.1, g.2 0)) hg)
      rw [Json.obj.sizeOf_spec, Fields.at, Fields.mapValues] at hsize
      rw [Prod.mk.sizeOf_spec] at hlt
      omega
    · rw [layer_annotate_obj]
      exact congrArg Layer.obj (Fields.mapValues_at (fun _ => annotate f) fields c)

namespace Annotated.Numbered

variable [Inhabited β] {p : Nat → Annotated β}

/-- Noted values are read in layers. -/
theorem readable (f : Layer (Annotated β) → β) (m d : Nat) : Readable m (Annotated.Numbered f m d) := by
  refine ⟨fun h => ?_, .string⟩
  cases h with
  | noted h hsize => exact h.annotate_layer (Nat.le_of_lt hsize)
  | string s => exact .str _ s

theorem layer (h : Numbered f m d loose p) : Layer.Numbered m (Numbered f m d) loose fun c => ScriptTrace.layer (p c) :=
  (readable f m d).layer h

theorem source (h : Numbered f m d loose p) : Json.Numbered m loose fun c => (p c).source := by
  cases h with
  | noted h => simpa only [Json.source_annotate] using h
  | string s => exact .str _ s

end Annotated.Numbered

/-- What a rule makes of numbered layers, given what it makes of the values in them, it makes of numbered values. -/
theorem Json.Numbered.note_induction [Inhabited β] {P : (Nat → β) → Prop} (hdefault : P fun _ => default)
    (hrule : ∀ d, (∀ {loose p}, Annotated.Numbered f m d loose p → P fun c => (p c).note) →
      ∀ {loose l}, Layer.Numbered m (Annotated.Numbered f m d) loose l → P fun c => f (l c))
    {j : Nat → Json} (h : Json.Numbered m loose j) : P fun c => (j c).note f := by
  induction hn : sizeOf (j 0) using Nat.strongRecOn generalizing loose j with
  | ind n ih =>
    have hnote (c : Nat) : (j c).note f = f (ScriptTrace.layer ((j c).annotate f)) := by
      cases j c <;> rfl
    simp only [hnote]
    refine hrule n (fun hp => ?_) (h.annotate_layer (Nat.le_of_eq hn))
    cases hp with
    | noted h hsize => exact ih _ hsize h rfl
    | string s => exact hdefault

end Notes

/-! ## Names and targets -/

section Names

variable {m d : Nat} {loose : Bool}

/-- Names, as a list or a fault. -/
abbrev NumberedNames (m : Nat) : (Nat → Except Fault (List Json)) → Prop := Agreed (NumberedList (Json.Numbered m true))

theorem agreed_namesOf {α : Type} {Q : (Nat → α) → Prop} {parts : Nat → List (Annotated (Except Fault (List α)))}
    (h : NumberedList (fun p => Agreed (NumberedList Q) fun c => (p c).note) parts) :
    Agreed (NumberedList Q) fun c => namesOf (parts c) :=
  (Agreed.mapM h fun _ hp => hp).bind fun _ hxs => .pure hxs.flatten

section Rules

variable {l : Nat → Layer (Annotated (Except Fault (List Json)))} {p : Nat → Annotated (Except Fault (List Json))}
  (hnote : ∀ {loose p}, Annotated.Numbered nameRule m d loose p → NumberedNames m fun c => (p c).note)

include hnote

theorem agreed_memberNames (h : Annotated.Numbered nameRule m d loose p) : NumberedNames m fun c => memberNames (p c) := by
  have hread := Annotated.Numbered.readable nameRule m d
  have hvalue : NumberedNames m fun c => (layer (p c)).optional "value" >>= fun o => namesOf o.toList :=
    (h.layer.optional hread "value").bind fun o ho => agreed_namesOf (ho.toList.mono fun _ hp => hnote hp)
  refine (h.layer.optional hread "type").bind fun o ho => ?_
  cases ho with
  | none => exact hvalue
  | some ht =>
    obtain ⟨b, hb⟩ := (ht.layer.isString "RestElement").eq
    simp only [Option.map_some, Option.getD_some, hb]
    exact .ite (fun _ => hnote h) fun _ => hvalue

theorem agreed_nameRule (h : Layer.Numbered m (Annotated.Numbered nameRule m d) loose l) : NumberedNames m fun c => nameRule (l c) := by
  have hread := Annotated.Numbered.readable nameRule m d
  have hpart (key : String) : NumberedNames m fun c => (l c).optional key >>= fun o => namesOf o.toList :=
    (h.optional hread key).bind fun o ho => agreed_namesOf (ho.toList.mono fun _ hp => hnote hp)
  obtain ⟨b, hb⟩ := h.isNode.eq
  unfold nameRule
  simp only [hb]
  refine .ite (fun _ => .pure .nil) fun _ => .test (h.hasType hread _) ?_ <| .test (h.hasType hread _) (hpart "left") <|
    .test (h.hasType hread _) (hpart "argument") <| .test (h.hasType hread _) ?_ <| .test (h.hasType hread _) ?_ (.pure .nil)
  · exact (h.require "name").bind fun x hx => .pure (.cons hx.source .nil)
  · exact (h.elementsOf hread "elements" rfl).bind fun xs hxs => agreed_namesOf (hxs.mono fun _ hp => hnote hp)
  · exact (h.elementsOf hread "properties" rfl).bind fun xs hxs =>
      (Agreed.mapM hxs fun _ hp => agreed_memberNames hnote hp).bind fun _ hnames => .pure hnames.flatten

end Rules

theorem Json.Numbered.bindingNames {j : Nat → Json} (h : Json.Numbered m loose j) :
    NumberedNames m fun c => ScriptTrace.bindingNames (j c) :=
  h.note_induction (.answer .nil) fun _ hnote _ _ => agreed_nameRule hnote

theorem agreed_allBindingNames {patterns : Nat → List Json} (h : NumberedList (Json.Numbered m false) patterns) :
    NumberedNames m fun c => allBindingNames (patterns c) :=
  (Agreed.mapM h fun _ hp => hp.bindingNames).bind fun _ hnames => .pure hnames.flatten

/-- A target and the expression that reads it, which declares no loop variable. -/
structure Target.Numbered (m : Nat) (t : Nat → Target) : Prop where
  key : Json.Numbered m true fun c => (t c).key
  expression : Json.Numbered m false fun c => (t c).expression
  silent (c : Nat) : (t c).expression.loopVariables = []

/-- Targets, as a list or a fault. -/
abbrev NumberedTargets (m : Nat) : (Nat → Except Fault (List Target)) → Prop := Agreed (NumberedList (Target.Numbered m))

theorem Json.Numbered.ident {name : Nat → Json} (h : Json.Numbered m true name) : Json.Numbered m loose fun c => Json.ident (name c) :=
  .of_obj [("type", fun _ => .str "Identifier"), ("name", name)]
    (List.forall_mem_cons.2 ⟨.str _ _, List.forall_mem_singleton.2 h⟩) fun _ => rfl

theorem Json.Numbered.named {name : Nat → Json} (h : Json.Numbered m true name) : Target.Numbered m fun c => Target.named (name c) :=
  ⟨h, h.ident, fun _ => loopVariables_ident _⟩

theorem agreed_rootRule {l : Nat → Layer (Annotated (Except Fault (Option Target)))}
    (hnote : ∀ {loose p}, Annotated.Numbered rootRule m d loose p → Agreed (NumberedOption (Target.Numbered m)) fun c => (p c).note)
    (h : Layer.Numbered m (Annotated.Numbered rootRule m d) loose l) :
    Agreed (NumberedOption (Target.Numbered m)) fun c => rootRule (l c) := by
  have hread := Annotated.Numbered.readable rootRule m d
  have hthis : Target.Numbered m fun _ => ⟨.str "this", .thisNode⟩ := ⟨.str _ _, .const _ _ _, fun _ => by decide⟩
  refine .test (h.hasType hread _) ?_ <| .test (h.hasType hread _) (.pure (.some hthis)) <| .test (h.hasType hread _) ?_ (.pure .none)
  · exact (h.require "object").bind fun _ hp => hnote hp
  · exact (h.require "name").bind fun _ hp => .pure (.some hp.source.named)

theorem Json.Numbered.targetsOf {j : Nat → Json} (h : Json.Numbered m loose j) :
    NumberedTargets m fun c => ScriptTrace.targetsOf (j c) := by
  have hl := h.layer
  have hread := Json.readable m
  obtain ⟨b, hb⟩ := hl.isNode.eq
  unfold ScriptTrace.targetsOf
  simp only [hb]
  refine .ite (fun _ => .pure .nil) fun _ => .test (hl.hasType hread _) ?_ <| .test (hl.hasType hread _) ?_ <|
    .test (hl.hasTypeIn hread _) ?_ (.pure .nil)
  · exact (hl.require "name").bind fun _ hname => .pure (.cons hname.named .nil)
  · have hroot : Agreed (NumberedOption (Target.Numbered m)) fun c => (j c).note rootRule :=
      h.note_induction (.fault _) fun _ hnote _ _ => agreed_rootRule hnote
    exact hroot.bind fun _ ho => .pure ho.toList
  · exact h.bindingNames.bind fun _ hnames => .pure (hnames.map fun _ hname => hname.named)

theorem agreed_writtenRule {l : Nat → Layer (Annotated (Except Fault (List Target)))}
    (hnote : ∀ {loose p}, Annotated.Numbered writtenRule m d loose p → NumberedTargets m fun c => (p c).note)
    (h : Layer.Numbered m (Annotated.Numbered writtenRule m d) loose l) : NumberedTargets m fun c => writtenRule (l c) := by
  have hread := Annotated.Numbered.readable writtenRule m d
  obtain ⟨b, hb⟩ := h.isNode.eq
  unfold writtenRule
  simp only [hb]
  refine .ite (fun _ => .pure .nil) fun _ => .test (h.hasType hread _) ?_ <| .test (h.hasType hread _) ?_ <|
    .test (h.hasType hread _) ?_ (.pure .nil)
  · exact (h.require "left").bind fun _ hp => hp.source.targetsOf
  · exact (h.require "argument").bind fun _ hp => hp.source.targetsOf
  · exact (h.require "expressions").bind fun _ hp => (hp.layer.elements hread).bind fun _ hxs =>
      agreed_namesOf (hxs.mono fun _ hx => hnote hx)

theorem Json.Numbered.writtenTargets {j : Nat → Json} (h : Json.Numbered m loose j) :
    NumberedTargets m fun c => ScriptTrace.writtenTargets (j c) :=
  h.note_induction (.answer .nil) fun _ hnote _ _ => agreed_writtenRule hnote

end Names

/-! ## Names of functions -/

section FunctionNames

variable {m : Nat} {loose : Bool} {j : Nat → Json}

theorem Json.Numbered.inspect (h : Json.Numbered m loose j) : NumberedText m fun c => (j c).inspect := by
  induction h with
  | null => exact .const _ _
  | bool => exact .const _ _
  | int => exact .const _ _
  | float => exact .const _ _
  | str => exact .const _ _
  | text h => exact h.inspect
  | arr _ items h ih =>
    have hitems (c : Nat) : inspectItems (items.map (· c)) = (items.map fun x c => (x c).inspect).map (· c) := by
      rw [← map_at (fun _ => Json.inspect)]
      induction items.map (· c) with
      | nil => rfl
      | cons x xs ih => rw [inspectItems, ih, List.map_cons]
    simp only [Json.inspect, hitems]
    exact ((NumberedText.const m "[").append (.intercalate ", " ⟨_, rfl, List.forall_mem_map.2 ih⟩)).append (.const m "]")
  | obj _ fields h ih =>
    have hfields (c : Nat) : inspectFields (fields.at c) =
        (fields.map fun f c => inspectString f.1 ++ ": " ++ (f.2 c).inspect).map (· c) := by
      rw [Fields.at, Fields.mapValues]
      induction fields with
      | nil => rfl
      | cons f fields ih' =>
        rw [List.map_cons, inspectFields, ih' (fun g hg => h g (List.mem_cons_of_mem _ hg)) fun g hg => ih g (List.mem_cons_of_mem _ hg)]
        rfl
    simp only [Json.inspect, hfields]
    refine ((NumberedText.const m "\x7b").append (.intercalate ", " ⟨_, rfl, List.forall_mem_map.2 fun f hf => ?_⟩)).append (.const m "\x7d")
    exact (NumberedText.const m (inspectString f.1 ++ ": ")).append (ih f hf)

theorem Json.Numbered.shown (h : Json.Numbered m loose j) : NumberedText m fun c => (j c).shown := by
  have hinspect := h.inspect
  cases h with
  | str => exact .const _ _
  | text h => exact h
  | _ => exact hinspect

/-- A name, or none. -/
abbrev NumberedName (m : Nat) : (Nat → Except Fault (Option Json)) → Prop := Agreed (NumberedOption (Json.Numbered m true))

theorem Json.Numbered.keyName (h : Json.Numbered m loose j) : NumberedName m fun c => ScriptTrace.keyName (j c) := by
  have hl := h.layer
  have hread := Json.readable m
  refine .test (hl.hasType hread _) ?_ <| .test (hl.hasType hread _) ?_ (.pure .none)
  · exact (hl.require "name").bind fun _ hname => .pure (.some hname)
  · exact (hl.require "value").bind fun _ hvalue => .pure (.some (.text hvalue.shown))

theorem Json.Numbered.leftName (h : Json.Numbered m loose j) : NumberedName m fun c => ScriptTrace.leftName (j c) := by
  have hl := h.layer
  have hread := Json.readable m
  refine .test (hl.hasType hread _) ?_ <| .test (hl.hasType hread _) ?_ (.pure .none)
  · exact (hl.require "name").bind fun _ hname => .pure (.some hname)
  · refine .test (hl.flag hread _) (.pure .none) ?_
    exact (hl.require "property").bind fun _ hp => (hp.layer.require "name").bind fun _ hname => .pure (.some hname)

/-- A string that is no text which may differ. -/
theorem Json.Numbered.string? (h : Json.Numbered m false j) : Constant fun c => (j c).string? := by
  cases h <;> exact constant _

theorem Json.Numbered.nameFromParent {classes : Nat → List Json} (hclasses : NumberedList (Json.Numbered m true) classes)
    (h : Json.Numbered m loose j) : NumberedName m fun c => ScriptTrace.nameFromParent (classes c) (j c) := by
  have hl := h.layer
  have hread := Json.readable m
  refine .test (hl.hasType hread _) ?_ <| .test (hl.hasType hread _) ?_ ?_
  · refine (hl.require "id").bind fun _ hid => .test (hid.layer.hasType hread _) ?_ (.pure .none)
    exact (hid.layer.require "name").bind fun _ hname => .pure (.some hname)
  · exact (hl.require "left").bind fun _ hleft => hleft.leftName
  · have hkey : NumberedName m (fun c => do
        if !(← (ScriptTrace.layer (j c)).hasTypeIn ["Property", "MethodDefinition"]) then return none
        else if ← (ScriptTrace.layer (j c)).flag "computed" then return none
        else ScriptTrace.keyName (← (ScriptTrace.layer (j c)).require "key")) := by
      refine (hl.hasTypeIn hread _).bind fun b hb => ?_
      obtain ⟨b, rfl⟩ := hb
      refine .ite (fun _ => .pure .none) fun _ => .test (hl.flag hread _) (.pure .none) ?_
      exact (hl.require "key").bind fun _ hk => hk.keyName
    refine (hl.hasType hread _).bind fun b hb => ?_
    obtain ⟨b, rfl⟩ := hb
    obtain ⟨kind, hkind⟩ := (h.field "kind").string?.eq
    obtain ⟨names, rfl, hnames⟩ := hclasses
    simp only [hkind]
    cases b && kind == some "constructor" with
    | false => exact hkey
    | true =>
      cases names with
      | nil => exact hkey
      | cons name names => exact .pure (.some (hnames name List.mem_cons_self))

theorem agreed_placeName {classes : Nat → List Json} {parent : Nat → Option Json}
    (hclasses : NumberedList (Json.Numbered m true) classes) (hparent : NumberedOption (Json.Numbered m true) parent) :
    Agreed (Json.Numbered m true) fun c => match parent c with
      | none => pure anonymous
      | some p => do return (← ScriptTrace.nameFromParent (classes c) p).getD anonymous := by
  cases hparent with
  | none => exact .pure (.str _ _)
  | some hp =>
    refine (hp.nameFromParent hclasses).bind fun o ho => .pure ?_
    cases ho with
    | none => exact .str _ _
    | some hname => exact hname

theorem Json.Numbered.functionName {classes : Nat → List Json} {parent : Nat → Option Json}
    (hclasses : NumberedList (Json.Numbered m true) classes) (h : Json.Numbered m loose j)
    (hparent : NumberedOption (Json.Numbered m true) parent) :
    Agreed (Json.Numbered m true) fun c => ScriptTrace.functionName (classes c) (j c) (parent c) := by
  have hl := h.layer
  have hread := Json.readable m
  have hplace := agreed_placeName hclasses hparent
  refine (hl.optional hread "id").bind fun o ho => ?_
  cases ho with
  | none => exact hplace
  | @some id hid =>
    have htruthy (c : Nat) : (id c).truthy = (id 0).truthy := hid.truthy c
    simp only [Option.filter, htruthy]
    cases (id 0).truthy with
    | false => exact hplace
    | true => exact hid.layer.require "name"

end FunctionNames

/-! ## Positions -/

section Positions

variable {m : Nat} {loose : Bool} {j : Nat → Json}

theorem Json.Numbered.lineAt (which : String) (h : Json.Numbered m loose j) :
    Agreed (NumberedOption (Json.Numbered m true)) fun c => Node.lineAt which (j c) := by
  unfold Node.lineAt
  simp only [h.truthy]
  refine .ite (fun _ => .pure .none) fun _ => (h.layer.optional (Json.readable m) which).bind fun o ho => ?_
  cases ho with
  | none => exact .pure .none
  | @some place hplace =>
    have htruthy (c : Nat) : (place c).truthy = (place 0).truthy := hplace.truthy c
    simp only [Option.filter, htruthy]
    cases (place 0).truthy with
    | false => exact .pure .none
    | true =>
      refine (hplace.layer.optional (Json.readable m) "line").bind fun _ _ => .pure (.some ?_)
      have hget := hplace.get? "line"
      generalize hline : (fun c => (place c).get? "line") = o at hget
      have hline (c : Nat) : (place c).get? "line" = o c := congrFun hline c
      simp only [hline]
      cases hget with
      | none => exact .int _ _
      | some h => exact h.weaken

theorem Json.Numbered.lineOf (h : Json.Numbered m loose j) : Agreed (Json.Numbered m true) fun c => Node.lineOf (j c) := by
  refine (h.lineAt "start").bind fun o ho => .pure ?_
  cases ho with
  | none => exact .int _ _
  | some hline => exact hline

theorem Json.Numbered.endLineOf (h : Json.Numbered m loose j) : Agreed (Json.Numbered m true) fun c => Node.endLineOf (j c) := by
  refine (h.lineAt "end").bind fun o ho => ?_
  cases ho with
  | none => exact h.lineOf
  | some hline => exact .pure hline

theorem Json.Numbered.bound (h : Json.Numbered m false j) : Agreed Constant fun c => Node.bound (j c) := by
  cases h with
  | null => exact .answer (constant _)
  | bool => exact .answer (constant _)
  | int => exact .answer (constant _)
  | _ => exact .fault _

/-- The part of the program that a node was read from is the same for all numbers. -/
theorem Json.Numbered.sourceText (h : Json.Numbered m loose j) (code : Option String) :
    Agreed Constant fun c => Node.sourceText (j c) code := by
  obtain ⟨b, hb⟩ := h.layer.isNode.eq
  have hb (c : Nat) : (j c).isNode = b := hb c
  have hrange : Json.Numbered m false fun c => if b = true then (j c).field "range" else .null := by
    cases b with
    | true => exact h.field "range"
    | false => exact .null _
  unfold Node.sourceText
  simp only [hb]
  generalize hr : (fun c => if b = true then (j c).field "range" else Json.null) = range at hrange
  have hr (c : Nat) : (if b = true then (j c).field "range" else Json.null) = range c := congrFun hr c
  simp only [hr, hrange.truthy]
  split
  · exact .pure (constant _)
  · exact .pure (constant _)
  · refine .ite (fun _ => .pure (constant _)) fun _ => ?_
    have hends : Agreed (NumberedOption fun p => Json.Numbered m false (fun c => (p c).1) ∧ Json.Numbered m false fun c => (p c).2)
        fun c => Node.rangeEnds (range c) := by
      cases hrange with
      | arr _ items h =>
        rcases items with _ | ⟨x, _ | ⟨y, _ | ⟨z, items⟩⟩⟩
        · exact .answer .none
        · exact .answer .none
        · exact .answer (.some ⟨h x List.mem_cons_self, h y (List.mem_cons_of_mem _ List.mem_cons_self)⟩)
        · exact .answer .none
      | str => exact .ite (fun _ => .fault _) fun _ => .answer .none
      | obj _ fields =>
        simp only [Node.rangeEnds, Fields.at, Fields.mapValues, List.length_map]
        exact .ite (fun _ => .fault _) fun _ => .answer .none
      | _ => exact .fault _
    refine hends.bind fun o ho => ?_
    cases ho with
    | none => exact .pure (constant _)
    | some h =>
      refine h.1.bound.bind fun a ha => h.2.bound.bind fun b hb => .pure ?_
      obtain ⟨a, rfl⟩ := ha
      obtain ⟨b, rfl⟩ := hb
      exact constant _

end Positions

/-! ## Probes -/

section Probes

open Probe

variable {m : Nat} {loose : Bool} {j line name : Nat → Json}

theorem Json.Numbered.literalText (h : Json.Numbered m loose j) : NumberedText m fun c => ScriptTrace.literalText (j c) := by
  have hinspect := h.inspect
  cases h with
  | text h => exact h.quote
  | arr => exact hinspect
  | obj => exact hinspect
  | _ => exact .const _ _

theorem Json.Numbered.literal (h : Json.Numbered m true j) : Json.Numbered m loose fun c => Json.literal (j c) := by
  refine .of_obj [("type", fun _ => .str "Literal"), ("value", j), ("raw", fun c => .str (ScriptTrace.literalText (j c)))] ?_ fun _ => rfl
  simp only [List.forall_mem_cons]
  exact ⟨.str _ _, h, .text h.literalText, List.forall_mem_nil _⟩

theorem Json.Numbered.callOf (name : String) {arguments : Nat → List Json} (h : NumberedList (Json.Numbered m false) arguments) :
    Json.Numbered m loose fun c => Json.callOf name (arguments c) := by
  obtain ⟨items, rfl, hitems⟩ := h
  refine .of_obj [("type", fun _ => .str "CallExpression"), ("callee", fun _ => Json.ident (.str name)),
    ("arguments", fun c => .arr (items.map (· c)))] ?_ fun _ => rfl
  simp only [List.forall_mem_cons]
  exact ⟨.str _ _, .const _ _ _, .arr _ items hitems, List.forall_mem_nil _⟩

/-- A key with the value under it, both numbered. -/
def NumberedPair (m : Nat) (p : Nat → Json × Json) : Prop :=
  Json.Numbered m true (fun c => (p c).1) ∧ Json.Numbered m true fun c => (p c).2

theorem Json.Numbered.objectOf {pairs : Nat → List (Json × Json)} (h : NumberedList (NumberedPair m) pairs) :
    Json.Numbered m loose fun c => Json.objectOf (pairs c) := by
  obtain ⟨items, hmembers, hitems⟩ := h.map (P := Json.Numbered m false) (f := fun _ p => property p.1 p.2) fun p hp => by
    refine .of_obj [("type", fun _ => .str "Property"), ("key", fun c => .literal (p c).1), ("computed", fun _ => .bool false),
      ("value", fun c => (p c).2), ("kind", fun _ => .str "init"), ("method", fun _ => .bool false),
      ("shorthand", fun _ => .bool false)] ?_ fun _ => rfl
    simp only [List.forall_mem_cons]
    exact ⟨.str _ _, hp.1.literal, .bool _ _, hp.2, .str _ _, .bool _ _, .bool _ _, List.forall_mem_nil _⟩
  have hmembers (c : Nat) : (pairs c).map (fun p => property p.1 p.2) = items.map (· c) := congrFun hmembers c
  refine .of_obj [("type", fun _ => .str "ObjectExpression"), ("properties", fun c => .arr (items.map (· c)))] ?_ fun c => ?_
  · exact List.forall_mem_cons.2 ⟨.str _ _, List.forall_mem_singleton.2 (.arr _ items hitems)⟩
  · rw [Json.objectOf, hmembers]
    rfl

theorem Json.Numbered.expressionStatement (h : Json.Numbered m false j) :
    Json.Numbered m loose fun c => Json.expressionStatement (j c) :=
  .of_obj [("type", fun _ => .str "ExpressionStatement"), ("expression", j)]
    (List.forall_mem_cons.2 ⟨.str _ _, List.forall_mem_singleton.2 h⟩) fun _ => rfl

theorem Json.Numbered.snapshot (h : Json.Numbered m false j) : Json.Numbered m loose fun c => Probe.snapshot (j c) :=
  .callOf snapshotName (.cons h .nil)

/-- A record of any kind, with the fields that tell more. -/
theorem Json.Numbered.record (kind : String) (hline : Json.Numbered m true line) {fields : Nat → List (String × Json)}
    (h : NumberedList (fun p => Constant (fun c => (p c).1) ∧ Json.Numbered m true fun c => (p c).2) fields) :
    Json.Numbered m loose fun c => Probe.record kind (line c) (fields c) := by
  refine .callOf recordName (.cons (.objectOf ?_) .nil)
  refine .cons ⟨.str _ _, .const _ _ _⟩ (.cons ⟨.str _ _, hline.literal⟩ (h.map fun p hp => ⟨?_, hp.2⟩))
  obtain ⟨key, hkey⟩ := hp.1.eq
  simp only [hkey]
  exact .str _ _

/-- A record with one field besides its line. -/
theorem Json.Numbered.record_one (kind key : String) (hline : Json.Numbered m true line) (h : Json.Numbered m true j) :
    Json.Numbered m loose fun c => Probe.record kind (line c) [(key, j c)] :=
  .record kind hline (.cons ⟨constant _, h⟩ .nil)

theorem Json.Numbered.locals (kind : String) (hline : Json.Numbered m true line) {targets : Nat → List Target}
    (h : NumberedList (Target.Numbered m) targets) : Json.Numbered m loose fun c => Probe.locals kind (line c) (targets c) :=
  .record_one kind "locals" hline (.objectOf (h.map fun _ ht => ⟨ht.key, ht.expression.snapshot⟩))

theorem Json.Numbered.localsStatement (kind : String) (hline : Json.Numbered m true line) {targets : Nat → List Target}
    (h : NumberedList (Target.Numbered m) targets) : Json.Numbered m loose fun c => Probe.localsStatement kind (line c) (targets c) :=
  (Json.Numbered.locals kind hline h).expressionStatement

theorem Json.Numbered.called (hline : Json.Numbered m true line) (hname : Json.Numbered m true name)
    {params : Nat → List Json} (h : NumberedList (Json.Numbered m true) params) :
    Json.Numbered m loose fun c => Probe.called (line c) (name c) (params c) := by
  refine .expressionStatement (.record "call" hline (.cons ⟨constant _, hname.literal⟩ (.cons ⟨constant _, .objectOf ?_⟩ .nil)))
  exact h.map fun p hp => ⟨hp, hp.ident.snapshot⟩

theorem Json.Numbered.returned (hline : Json.Numbered m true line) : Json.Numbered m loose fun c => Probe.returned (line c) :=
  .expressionStatement (.record_one "return" "value" hline (.const _ _ _))

theorem Json.Numbered.thrown (hline : Json.Numbered m true line) (hname : Json.Numbered m true name) :
    Json.Numbered m loose fun c => Probe.thrown (line c) (name c) :=
  .expressionStatement (.record_one "throw" "name" hline hname.literal)

theorem Json.Numbered.declared (hline : Json.Numbered m true line) (hname : Json.Numbered m true name) :
    Json.Numbered m loose fun c => Probe.declared (line c) (name c) :=
  .expressionStatement (.record_one "class" "className" hline hname.literal)

theorem Json.Numbered.handler (hline : Json.Numbered m true line) (hname : Json.Numbered m true name) :
    Json.Numbered m loose fun c => Probe.handler (line c) (name c) := by
  let caught : Json := .ident (.str caughtName)
  let rethrow : Json := .obj [("type", .str "ThrowStatement"), ("argument", caught)]
  have hbody : Json.Numbered m false fun c => .obj [("type", .str "BlockStatement"), ("body", .arr [Probe.thrown (line c) (name c), rethrow])] := by
    refine .of_obj [("type", fun _ => .str "BlockStatement"), ("body", fun c => .arr [Probe.thrown (line c) (name c), rethrow])] ?_ fun _ => rfl
    refine List.forall_mem_cons.2 ⟨.str _ _, List.forall_mem_singleton.2 ?_⟩
    refine .of_arr [fun c => Probe.thrown (line c) (name c), fun _ => rethrow] ?_ fun _ => rfl
    exact List.forall_mem_cons.2 ⟨.thrown hline hname, List.forall_mem_singleton.2 (.const _ _ _)⟩
  refine .of_obj [("type", fun _ => .str "CatchClause"), ("param", fun _ => caught), ("body", fun c => _)] ?_ fun _ => rfl
  simp only [List.forall_mem_cons]
  exact ⟨.str _ _, .const _ _ _, hbody, List.forall_mem_nil _⟩

/-- The declarator that carries the probes of a counted loop is named by a number. -/
theorem Json.Numbered.initDeclarator {n : Nat} (hpos : 0 < n) (hle : n ≤ m) {probes : Nat → List Json}
    (h : NumberedList (Json.Numbered m false) probes) :
    Json.Numbered m loose fun c => Probe.initDeclarator (c + n) (probes c) := by
  obtain ⟨items, rfl, hitems⟩ := h
  refine .of_obj [("type", fun _ => .str "VariableDeclarator"), ("id", fun c => .ident (.str (initName (c + n)))), ("init", fun c => _)]
    ?_ fun _ => rfl
  simp only [List.forall_mem_cons]
  refine ⟨.str _ _, .ident (.text (.name hpos hle)), ?_, List.forall_mem_nil _⟩
  have hsequence : Json.Numbered m false fun c => .obj [("type", .str "SequenceExpression"), ("expressions", .arr (items.map (· c)))] :=
    .of_obj [("type", fun _ => .str "SequenceExpression"), ("expressions", fun c => .arr (items.map (· c)))]
      (List.forall_mem_cons.2 ⟨.str _ _, List.forall_mem_singleton.2 (.arr _ items hitems)⟩) fun _ => rfl
  rcases items with _ | ⟨x, _ | ⟨y, items⟩⟩
  · exact hsequence
  · exact hitems x List.mem_cons_self
  · exact hsequence

end Probes

end ScriptTrace
