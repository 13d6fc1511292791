import ScriptTrace.Proofs.PassFaults
import ScriptTrace.Proofs.SoundReading

/-!
# Passes over sound trees

A pass over a sound tree without shared parts keeps it sound, whatever it puts into it, and meets no fault but the
bound on the depth. What a visit may change of a value is told by its type alone: a node stays a node of its type.

* `Tree.Whole`, `Tree.SoundOf` : trees without shared parts, and such that are sound nodes;
* `TreeOf` : the fields of a sound node in the middle of a pass;
* `Tidy`, `At` : the states of a pass, and those with a node of a type in focus;
* `Visitor.Careful` : a visitor that keeps sound values sound;
* `At.visitField`, `At.inBlock`, `At.setField` : the steps from which the rules are made.
-/

namespace ScriptTrace

open Step Grammar

/-! ## Sound trees -/

namespace Tree

/-- A tree without shared parts. -/
inductive Whole : Tree → Prop
  | atom (t : Tree) (h : t.isAtom = true) : Whole t
  | items (ts : List Tree) (h : ∀ t ∈ ts, Whole t) : Whole (.arr ts)
  | fields (seen : Bool) (fs : Fields Tree) (h : ∀ f ∈ fs, Whole f.2) : Whole (.obj seen fs)

variable {t : Tree} {ts : List Tree} {types types' : List String}

theorem Whole.isShared (h : t.Whole) : t.isShared = false := by
  cases h with
  | atom _ h => cases t <;> first | rfl | cases h
  | _ => rfl

theorem whole_arr : Whole (.arr ts) ↔ ∀ t ∈ ts, Whole t := by
  refine ⟨fun h => ?_, .items ts⟩
  cases h with
  | atom _ h => cases h
  | items _ h => exact h

theorem whole_obj {seen : Bool} {fs : Fields Tree} : Whole (.obj seen fs) ↔ ∀ f ∈ fs, f.2.Whole := by
  refine ⟨fun h => ?_, .fields seen fs⟩
  cases h with
  | atom _ h => cases h
  | fields _ _ h => exact h

theorem Whole.field (h : t.Whole) (key : String) : (t.field key).Whole := by
  cases h with
  | fields seen fs h =>
    change ((Fields.get? key fs).getD null).Whole
    cases hget : Fields.get? key fs with
    | none => exact .atom _ rfl
    | some t => exact h _ (Fields.mem_of_get? hget)
  | atom t h => cases t <;> first | exact .atom _ rfl | cases h
  | items ts h => exact .atom _ rfl

theorem whole_ofJsonWith (seen : Bool) (j : Json) : (ofJsonWith seen j).Whole := by
  induction j using Json.ind with
  | scalar j hj => exact .atom _ (by cases j <;> first | rfl | cases hj)
  | arr items ih =>
    rw [ofJsonWith, ofItems_eq_map, whole_arr, List.forall_mem_map]
    exact ih
  | obj fields ih =>
    rw [ofJsonWith, ofFields_eq_mapValues, whole_obj]
    exact List.forall_mem_map.2 ih

/-- A sound value without shared parts. -/
structure Sound (t : Tree) : Prop where
  whole : t.Whole
  json : t.bare.Sound

/-- A sound node of one of some types, without shared parts. -/
structure SoundOf (types : List String) (t : Tree) : Prop where
  whole : t.Whole
  json : t.bare.SoundOf types

theorem SoundOf.sound (h : t.SoundOf types) : t.Sound := ⟨h.whole, h.json.1⟩

theorem SoundOf.mono (h : t.SoundOf types) (hsub : ∀ type ∈ types, type ∈ types') : t.SoundOf types' :=
  ⟨h.whole, h.json.mono hsub⟩

theorem soundOf_ofProbe {j : Json} (h : j.SoundOf types) : (ofProbe j).SoundOf types :=
  ⟨whole_ofJsonWith true j, (bare_ofProbe j).symm ▸ h⟩

theorem sound_arr : (Tree.arr ts).Sound ↔ ∀ t ∈ ts, t.Sound := by
  refine ⟨fun h t ht => ⟨whole_arr.1 h.whole t ht, ?_⟩, fun h => ⟨whole_arr.2 fun t ht => (h t ht).whole, ?_⟩⟩
  · have hbare := h.json
    rw [bare_arr] at hbare
    exact hbare.item (List.mem_map_of_mem ht)
  · rw [bare_arr]
    exact Json.everyObject_arr.2 (List.forall_mem_map.2 fun t ht => (h t ht).json)

theorem sound_of_atom (h : t.isAtom = true) : t.Sound :=
  ⟨.atom t h, by cases t <;> first | rfl | cases h⟩

end Tree

/-- The fields of a sound node of a type, none of which holds a shared part. -/
structure TreeOf (type : String) (fs : Fields Tree) : Prop where
  whole : ∀ f ∈ fs, f.2.Whole
  node : NodeOf type (Fields.mapValues Tree.bare fs)

section Trees

variable {type key : String} {types : List String} {fs : Fields Tree} {t : Tree} {seen : Bool}

theorem Tree.SoundOf.exists_tree (h : t.SoundOf types) : ∃ type seen fs, t = .obj seen fs ∧ type ∈ types ∧ TreeOf type fs := by
  obtain ⟨type, fields, hbare, hmem, hof⟩ := h.json.exists_node
  obtain ⟨seen, fs, rfl, rfl⟩ := Tree.of_bare_obj hbare
  exact ⟨type, seen, fs, rfl, hmem, Tree.whole_obj.1 h.whole, hof⟩

theorem Tree.Sound.exists_tree (h : t.Sound) (hnode : t.isNode = true) : ∃ type seen fs, t = .obj seen fs ∧ TreeOf type fs := by
  cases t with
  | obj seen fs =>
    have hbare := h.json
    rw [Tree.bare_obj] at hbare
    obtain ⟨type, htype⟩ := hbare.proper.exists_type (by rw [← Tree.bare_obj seen, isNode_bare, hnode])
    exact ⟨type, seen, fs, rfl, Tree.whole_obj.1 h.whole, hbare, htype⟩
  | _ => cases hnode

namespace TreeOf

variable (h : TreeOf type fs)

include h

theorem sound (seen : Bool) : (Tree.obj seen fs).Sound := ⟨Tree.whole_obj.2 h.whole, by rw [Tree.bare_obj]; exact h.node.sound⟩

theorem soundOf (seen : Bool) (hmem : type ∈ types) : (Tree.obj seen fs).SoundOf types :=
  ⟨(h.sound seen).whole, by rw [Tree.bare_obj]; exact h.node.soundOf hmem⟩

theorem type? : (Tree.obj seen fs).bare.type? = some type := by
  rw [Tree.bare_obj]
  exact h.node.type

theorem isNode : (Tree.obj seen fs).isNode = true := by
  rw [← isNode_bare, Tree.bare_obj]
  exact h.node.isNode

theorem get?_type : Fields.get? "type" fs = some (.str type) := by
  have htype := Fields.get?_of_type? h.node.type
  rw [Fields.get?_mapValues] at htype
  obtain ⟨t, ht, hbare⟩ := Option.map_eq_some_iff.1 htype
  cases t with
  | str s =>
    cases hbare
    exact ht
  | arr => simp at hbare
  | obj => simp at hbare
  | _ => cases hbare

theorem hasType (seen : Bool) (t : String) : (layer (Tree.obj seen fs)).hasType t = .ok (type == t) :=
  hasType_obj h.get?_type rfl t

theorem hasTypeIn (seen : Bool) (ts : List String) : (layer (Tree.obj seen fs)).hasTypeIn ts = .ok (ts.contains type) :=
  hasTypeIn_obj h.get?_type rfl ts

theorem field (hget : Fields.get? key fs = some t) : t.Sound := by
  have hbare : Fields.get? key (Fields.mapValues Tree.bare fs) = some t.bare := by
    rw [Fields.get?_mapValues, hget]
    rfl
  exact ⟨h.whole _ (Fields.mem_of_get? hget), h.node.sound.field hbare⟩

/-- A field that holds a node. -/
theorem required (key : String) (hslot : slotAt type key = some (.node types)) :
    ∃ t, Fields.get? key fs = some t ∧ t.SoundOf types := by
  obtain ⟨v, hv, hnode⟩ := h.node.node key hslot
  rw [Fields.get?_mapValues] at hv
  obtain ⟨t, ht, rfl⟩ := Option.map_eq_some_iff.1 hv
  exact ⟨t, ht, (h.field ht).whole, hnode⟩

/-- A field that holds a node, or nothing. -/
theorem optional (key : String) (hslot : slotAt type key = some (.optional types)) (hget : Fields.get? key fs = some t)
    (hnull : t ≠ .null) : t.SoundOf types := by
  refine ⟨(h.field hget).whole, (h.node.optional key hslot (v := t.bare) ?_).resolve_left fun hbare => ?_⟩
  · rw [Fields.get?_mapValues, hget]
    rfl
  · have hwhole := (h.field hget).whole.isShared
    cases t with
    | null => exact hnull rfl
    | arr => simp at hbare
    | obj => simp at hbare
    | shared => cases hwhole
    | _ => cases hbare

/-- A field that holds a list of nodes. -/
theorem list (key : String) (hslot : slotAt type key = some (.list types)) :
    ∃ ts, Fields.get? key fs = some (.arr ts) ∧ ∀ t ∈ ts, t.SoundOf types := by
  obtain ⟨items, hv, hitems⟩ := h.node.list key hslot
  rw [Fields.get?_mapValues] at hv
  obtain ⟨t, ht, hbare⟩ := Option.map_eq_some_iff.1 hv
  obtain ⟨ts, rfl, rfl⟩ := Tree.of_bare_arr hbare
  exact ⟨ts, ht, fun t hmem => ⟨Tree.whole_arr.1 (h.field ht).whole t hmem, hitems _ (List.mem_map_of_mem hmem)⟩⟩

/-- A field of the grammar is set to another value that it may hold. -/
theorem set {slot : Slot} (hfree : type ∉ constrained) (hslot : slotAt type key = some slot)
    (hfits : slot.fits (some t.bare) = true) (ht : t.Sound) (hkey : key ≠ "type") : TreeOf type (Fields.set key t fs) :=
  ⟨forall_mem_set h.whole ht.whole, by rw [Fields.mapValues_set]; exact h.node.set hfree hslot hfits ht.json hkey⟩

/-- A field is set to a value that agrees with the one it holds. -/
theorem set_agrees {u : Tree} (hget : Fields.get? key fs = some t) (hagrees : Json.AgreesEach t.bare u.bare) (hu : u.Sound)
    (hkey : key ≠ "loc" ∧ key ≠ "range") : TreeOf type (Fields.set key u fs) := by
  refine ⟨forall_mem_set h.whole hu.whole, ?_⟩
  rw [Fields.mapValues_set]
  exact h.node.set_agrees (by rw [Fields.get?_mapValues, hget]; rfl) hagrees hu.json hkey

/-- A list of nodes is set to another one. -/
theorem set_list {ts : List Tree} (hfree : type ∉ constrained) (hslot : slotAt type key = some (.list types))
    (hts : ∀ t ∈ ts, t.SoundOf types) (hkey : key ≠ "type") : TreeOf type (Fields.set key (.arr ts) fs) := by
  refine h.set hfree hslot ?_ (Tree.sound_arr.2 fun t ht => (hts t ht).sound) hkey
  rw [Tree.bare_arr]
  exact List.all_eq_true.2 (List.forall_mem_map.2 fun t ht => (hts t ht).json.2)

/-- A field is set to a node that it may hold. -/
theorem set_node (hfree : type ∉ constrained) (hslot : slotAt type key = some (.node types)) (ht : t.SoundOf types)
    (hkey : key ≠ "type") : TreeOf type (Fields.set key t fs) := h.set hfree hslot ht.json.2 ht.sound hkey

theorem set_optional (hfree : type ∉ constrained) (hslot : slotAt type key = some (.optional types)) (ht : t.SoundOf types)
    (hkey : key ≠ "type") : TreeOf type (Fields.set key t fs) := by
  refine h.set hfree hslot ?_ ht.sound hkey
  have hone := ht.json.2
  obtain ⟨_, fields, hbare, -⟩ := ht.json.exists_node
  rw [hbare] at hone ⊢
  exact hone

end TreeOf

end Trees

/-! ## Probes around sound trees -/

section Probes

open Rewriting

variable {t : Tree} {ts : List Tree} {line name : Json}

theorem whole_node {type : String} {fs : Fields Tree} (h : ∀ f ∈ fs, f.2.Whole) : (Probe.node type fs).Whole :=
  Tree.whole_obj.2 (List.forall_mem_cons.2 ⟨.atom _ rfl, h⟩)

theorem around_sound (name : String) {arguments : List Json} (harguments : ∀ v ∈ arguments, v.SoundOf elements)
    (h : t.SoundOf expressions) : (Probe.around name arguments t).SoundOf ["CallExpression"] := by
  refine ⟨whole_node ?_, ?_⟩
  · refine List.forall_mem_cons.2 ⟨Tree.whole_ofJsonWith _ _, List.forall_mem_singleton.2 (Tree.whole_arr.2 ?_)⟩
    refine List.forall_mem_append.2 ⟨List.forall_mem_map.2 fun _ _ => Tree.whole_ofJsonWith _ _, List.forall_mem_singleton.2 h.whole⟩
  · rw [bare_around]
    exact wrapped_sound name harguments (h.json.mono fun _ => List.mem_cons_of_mem _)

theorem followed_sound {probe : Json} (h : t.SoundOf expressions) (hprobe : probe.SoundOf expressions) :
    (Probe.followed t probe).SoundOf ["SequenceExpression"] := by
  refine ⟨whole_node (List.forall_mem_singleton.2 (Tree.whole_arr.2 ?_)), ?_⟩
  · exact List.forall_mem_cons.2 ⟨h.whole, List.forall_mem_singleton.2 (Tree.whole_ofJsonWith _ _)⟩
  · rw [bare_followed]
    exact sequenceOf_sound h.json hprobe

theorem block_sound (h : ∀ t ∈ ts, t.SoundOf listed) : (Probe.block ts).SoundOf ["BlockStatement"] := by
  refine ⟨Tree.whole_obj.2 ?_, ?_⟩
  · refine List.forall_mem_cons.2 ⟨.atom _ rfl, List.forall_mem_singleton.2 ?_⟩
    exact Tree.whole_arr.2 fun t ht => (h t ht).whole
  · have hbare : (Probe.block ts).bare = blockOf (ts.map Tree.bare) := by simp [Probe.block, blockOf]
    rw [hbare]
    exact blockOf_sound (List.forall_mem_map.2 fun t ht => (h t ht).json)

theorem guard_sound (hline : line.isAtom = true) (hname : name.IsText) (h : ∀ t ∈ ts, t.SoundOf listed) :
    (Probe.guard ts line name).SoundOf ["TryStatement"] := by
  refine ⟨whole_node ?_, ?_⟩
  · simp only [List.forall_mem_cons]
    refine ⟨whole_node ?_, Tree.whole_ofJsonWith _ _, .atom _ rfl, List.forall_mem_nil _⟩
    exact List.forall_mem_singleton.2 (Tree.whole_arr.2 fun t ht => (h t ht).whole)
  · rw [bare_guard]
    exact guarded_sound hline hname (List.forall_mem_map.2 fun t ht => (h t ht).json)

/-- The elements of an array are those of a call. -/
theorem array_sound (h : ∀ t ∈ ts, t.SoundOf elements) :
    (Probe.node "ArrayExpression" [("elements", .arr ts)]).SoundOf ["ArrayExpression"] := by
  refine ⟨whole_node (List.forall_mem_singleton.2 (Tree.whole_arr.2 fun t ht => (h t ht).whole)), ?_⟩
  have hbare : (Probe.node "ArrayExpression" [("elements", .arr ts)]).bare = arrayOf (.arr (ts.map Tree.bare)) := by
    simp [Probe.node, arrayOf]
  rw [hbare]
  exact arrayOf_sound (List.forall_mem_map.2 fun t ht => (h t ht).json)

theorem answerOf_sound (h : t.SoundOf expressions) : (answerOf t).SoundOf ["ReturnStatement"] := by
  refine ⟨Tree.whole_obj.2 ?_, ?_⟩
  · simp only [List.forall_mem_cons]
    exact ⟨.atom _ rfl, h.whole, h.whole.field "loc", List.forall_mem_nil _⟩
  · have hbare : (answerOf t).bare = returnOf t.bare := by simp [answerOf, returnOf, field_bare]
    rw [hbare]
    exact returnOf_sound h.json

end Probes

/-! ## States -/

section Passes

variable {code : Option String} {E : Fault → Prop} {α : Type}

/-- A state without shared parts, in which the classes around have names and the queued probes are sound statements. -/
structure Tidy (code : Option String) (s : Pass) : Prop where
  parts : s.parts = []
  code : s.code = code
  classes : Texts s.classes
  queue : ∀ t ∈ s.queue.before ++ s.queue.after, t.SoundOf ["ExpressionStatement"]

/-- What may be left of a value: a sound one that is a node of the same type, if it is one. -/
structure Becomes (t t' : Tree) : Prop where
  sound : t'.Sound
  agrees : Json.Agrees t.bare t'.bare

/-- A visitor that keeps sound values sound. -/
def Visitor.Careful (code : Option String) (E : Fault → Prop) (visit : Visitor) : Prop :=
  ∀ parent s, Tidy code s → s.focus.Sound → (∀ p, parent = some p → p.Sound ∧ p.isNode = true) →
    Yields (visit parent) s (fun _ s' => Tidy code s' ∧ Becomes s.focus s'.focus) E

/-- A state with a sound node of a type in focus, of whose fields `X` tells more. -/
structure At (code : Option String) (type : String) (X : Fields Tree → Prop) (s : Pass) : Prop where
  tidy : Tidy code s
  focus : ∃ seen fs, s.focus = .obj seen fs ∧ TreeOf type fs ∧ X fs

/-- What is told of the fields stays true when one of them is visited. -/
def Lasting (X : Fields Tree → Prop) : Prop :=
  ∀ fs key t u, X fs → Fields.get? key fs = some t → Json.AgreesEach t.bare u.bare → X (Fields.set key u fs)

/-- A field holds a node of one of some types. -/
def HoldsAt (key : String) (types : List String) (fs : Fields Tree) : Prop :=
  ∃ t, Fields.get? key fs = some t ∧ t.bare.isOneOf types = true

/-- A field holds a block. -/
abbrev BlockAt (key : String) : Fields Tree → Prop := HoldsAt key ["BlockStatement"]

/-- Nothing is told of the fields. -/
abbrev Plain (_ : Fields Tree) : Prop := True

theorem lasting_plain : Lasting Plain := fun _ _ _ _ _ _ _ => trivial

theorem lasting_holdsAt (key : String) (types : List String) : Lasting (HoldsAt key types) := by
  rintro fs k t u ⟨b, hb, hone⟩ hget hagrees
  by_cases hkey : k = key
  · subst hkey
    cases hget.symm.trans hb
    exact ⟨u, by rw [Fields.get?_set, if_pos rfl], by rw [hagrees.isOneOf, hone]⟩
  · exact ⟨b, by rw [Fields.get?_set, if_neg hkey, hb], hone⟩

theorem Lasting.and {X Y : Fields Tree → Prop} (hX : Lasting X) (hY : Lasting Y) : Lasting fun fs => X fs ∧ Y fs :=
  fun fs key t u h hget hagrees => ⟨hX fs key t u h.1 hget hagrees, hY fs key t u h.2 hget hagrees⟩

theorem lasting_names (names : List String) : Lasting fun fs => Fields.names fs = names := by
  rintro fs key t u rfl hget -
  exact Fields.names_set_of_mem (Fields.mem_names_of_get? hget)

namespace Tidy

variable {s : Pass} (h : Tidy code s)

include h

theorem focus (t : Tree) : Tidy code { s with focus := t } := ⟨h.parts, h.code, h.classes, h.queue⟩

/-- A state with another queue. -/
theorem withQueue {q : Queue} (hq : ∀ t ∈ q.before ++ q.after, t.SoundOf ["ExpressionStatement"]) :
    Tidy code { s with queue := q } := ⟨h.parts, h.code, h.classes, hq⟩

theorem emptyQueue (allows : Bool) : Tidy code { s with queue := .empty allows } := h.withQueue (List.forall_mem_nil _)

theorem queueBefore {t : Tree} (ht : t.SoundOf ["ExpressionStatement"]) :
    Tidy code { s with queue := { s.queue with before := s.queue.before ++ [t] } } := h.withQueue (Queue.forall_before h.queue ht)

theorem queueAfter {t : Tree} (ht : t.SoundOf ["ExpressionStatement"]) :
    Tidy code { s with queue := { s.queue with after := s.queue.after ++ [t] } } := h.withQueue (Queue.forall_after h.queue ht)

theorem withClasses {classes : List Json} (hclasses : Texts classes) : Tidy code { s with classes := classes } :=
  ⟨h.parts, h.code, hclasses, h.queue⟩

theorem withCounter (n : Nat) : Tidy code { s with counter := n } := ⟨h.parts, h.code, h.classes, h.queue⟩

theorem expand (t : Tree) : t.expand s.parts = t.bare := by rw [h.parts, Tree.expand_nil]

end Tidy

theorem Becomes.refl {t : Tree} (h : t.Sound) : Becomes t t := ⟨h, .refl _⟩

theorem Becomes.soundOf {types : List String} {t t' : Tree} (h : Becomes t t') (ht : t.SoundOf types) : t'.SoundOf types :=
  ⟨h.sound.whole, h.sound.json, (h.agrees.isOneOf types).trans ht.json.2⟩

/-- A node in focus whose field is there is looked up. -/
theorem yields_place_of_get? {R : Tree → Pass → Prop} {key : String} {s : Pass} {seen : Bool} {fs : Fields Tree} {t : Tree}
    (hfocus : s.focus = .obj seen fs) (hget : Fields.get? key fs = some t) : Yields (place key) s R E ↔ R t s := by
  rw [yields_place, hfocus, layer_obj, Layer.require_of_get? hget, ends_ok]

section Node

variable {type key : String} {types : List String} {X Y : Fields Tree → Prop} {s : Pass} {visit : Visitor}

/-! ## Looking at the node -/

theorem TreeOf.at_focus {seen : Bool} {fs : Fields Tree} (h : TreeOf type fs) (htidy : Tidy code s) (hfocus : s.focus = .obj seen fs)
    (hX : X fs) : At code type X s := ⟨htidy, seen, fs, hfocus, h, hX⟩

namespace At

variable (h : At code type X s)

include h

theorem weaken (himp : ∀ fs, X fs → Y fs) : At code type Y s where
  tidy := h.tidy
  focus := by
    obtain ⟨seen, fs, hfocus, hof, hX⟩ := h.focus
    exact ⟨seen, fs, hfocus, hof, himp fs hX⟩

theorem plain : At code type Plain s := h.weaken fun _ _ => trivial

/-- The node in focus, as the node around another. -/
theorem isParent : s.focus.Sound ∧ s.focus.isNode = true := by
  obtain ⟨seen, fs, hfocus, hof, -⟩ := h.focus
  rw [hfocus]
  exact ⟨hof.sound seen, hof.isNode⟩

theorem becomes {t : Tree} (ht : t.bare.type? = some type) (hliteral : type ≠ "Literal") : Becomes t s.focus := by
  obtain ⟨seen, fs, hfocus, hof, -⟩ := h.focus
  rw [hfocus]
  exact ⟨hof.sound seen, .inr ⟨type, ht, hof.type?, fun htype => absurd htype hliteral⟩⟩

omit h in
/-- A node whose fields keep their names, a literal included. -/
theorem becomes_of_names {seen : Bool} {fs : Fields Tree} (h : At code type (fun gs => Fields.names gs = Fields.names fs) s)
    (ht : (Tree.obj seen fs).bare.type? = some type) : Becomes (.obj seen fs) s.focus := by
  obtain ⟨seen', gs, hfocus, hof, hnames⟩ := h.focus
  have hvalue : (Fields.get? "value" (Fields.mapValues Tree.bare gs)).isSome =
      (Fields.get? "value" (Fields.mapValues Tree.bare fs)).isSome := by
    rw [Fields.get?_mapValues, Fields.get?_mapValues, Option.isSome_map, Option.isSome_map, Bool.eq_iff_iff,
      Option.isSome_iff_ne_none, Option.isSome_iff_ne_none, ne_eq, ne_eq, Fields.get?_eq_none, Fields.get?_eq_none, hnames]
  rw [hfocus]
  refine ⟨hof.sound seen', .inr ⟨type, ht, hof.type?, fun _ => ?_⟩⟩
  rw [Tree.bare_obj, Tree.bare_obj]
  exact hvalue

/-- Another state with the same node in focus. -/
theorem of_focus {s' : Pass} (htidy : Tidy code s') (hfocus : s'.focus = s.focus) : At code type X s' := by
  obtain ⟨seen, fs, he, hof, hX⟩ := h.focus
  exact hof.at_focus htidy (hfocus.trans he) hX

/-- The field under a key, where one is there that is not null. -/
theorem child? {R : Option Tree → Pass → Prop} (key : String) (hnone : R none s)
    (hsome : ∀ seen fs t, s.focus = .obj seen fs → TreeOf type fs → X fs → Fields.get? key fs = some t → t ≠ .null → R (some t) s) :
    Yields (Step.child? key) s R E := by
  obtain ⟨seen, fs, hfocus, hof, hX⟩ := h.focus
  exact yields_child? hfocus (fun _ => hnone) fun t ht hnull =>
    ⟨(hof.field ht).whole.isShared, hsome seen fs t hfocus hof hX ht hnull⟩

theorem flag {R : Bool → Pass → Prop} (key : String) (hR : ∀ b, R b s) : Yields (Step.flag key) s R E := by
  unfold Step.flag
  exact yields_bind.2 (h.child? key (hR _) fun _ _ _ _ _ _ _ _ => hR _)

/-- A field that holds a node is looked up. -/
theorem place {R : Tree → Pass → Prop} (key : String) (hslot : slotAt type key = some (.node types))
    (hR : ∀ t, t.SoundOf types → R t s) : Yields (Step.place key) s R E := by
  obtain ⟨seen, fs, hfocus, hof, -⟩ := h.focus
  obtain ⟨t, hget, ht⟩ := hof.required key hslot
  exact (yields_place_of_get? hfocus hget).2 (hR t ht)

/-- The plain JSON of a field. -/
theorem plainField {R : Json → Pass → Prop} (key : String) (hR : ∀ v, v.Sound → R v s) : Yields (Step.plainField key) s R E := by
  obtain ⟨seen, fs, hfocus, hof, -⟩ := h.focus
  rw [yields_plainField, h.tidy.expand, hfocus]
  refine hR _ ?_
  change ((Fields.get? key fs).getD Tree.null).bare.Sound
  cases hget : Fields.get? key fs with
  | none => rfl
  | some t => exact (hof.field hget).json

/-- The plain JSON of a field that holds a node or nothing. -/
theorem plainOptional {R : Json → Pass → Prop} (key : String) (hslot : slotAt type key = some (.optional types)) (hnone : R .null s)
    (hsome : ∀ v, v.SoundOf types → R v s) : Yields (Step.plainField key) s R E := by
  obtain ⟨seen, fs, hfocus, hof, -⟩ := h.focus
  rw [yields_plainField, h.tidy.expand, hfocus]
  change R ((Fields.get? key fs).getD Tree.null).bare s
  cases hget : Fields.get? key fs with
  | none => exact hnone
  | some t =>
    by_cases hnull : t = .null
    · subst hnull
      exact hnone
    · exact hsome _ (hof.optional key hslot hget hnull).json

theorem line {R : Json → Pass → Prop} (hR : ∀ line, line.isAtom = true → R line s) : Yields line s R E := by
  obtain ⟨seen, fs, hfocus, hof, -⟩ := h.focus
  unfold Step.line position
  rw [yields_bind, yields_bind, yields_focus, if_pos h.isParent.2, yields_plainField, h.tidy.expand, hfocus, yields_lift,
    ← field_bare, Tree.bare_obj]
  exact EndsIn.faults (hof.node.lineOf.mono hR) nofun

theorem endLine {R : Json → Pass → Prop} (hR : ∀ line, line.isAtom = true → R line s) : Yields endLine s R E := by
  obtain ⟨seen, fs, hfocus, hof, -⟩ := h.focus
  unfold Step.endLine position
  rw [yields_bind, yields_bind, yields_focus, if_pos h.isParent.2, yields_plainField, h.tidy.expand, hfocus, yields_lift,
    ← field_bare, Tree.bare_obj]
  exact EndsIn.faults (hof.node.endLineOf.mono hR) nofun

/-- The text by which a condition is shown. -/
theorem conditionText {R : Json → Pass → Prop} {t : Tree} (ht : t.SoundOf expressions) (hR : ∀ text : String, R (.str text) s) :
    Yields (conditionText t) s R E := by
  unfold Step.conditionText
  rw [yields_bind, yields_plain, h.tidy.expand, yields_bind, yields_get, yields_bind, yields_lift]
  exact EndsIn.faults ((ht.json.conditionText _).mono fun text _ => yields_pure.2 (hR text)) nofun

end At

/-! ## Changing the node -/

namespace At

variable (h : At code type X s)

include h

/-- A step on a field of the node. -/
theorem inField {act : Step α} {Q : α → Prop} (key : String)
    (hact : ∀ seen fs, s.focus = .obj seen fs → TreeOf type fs → X fs → ∃ t, Fields.get? key fs = some t ∧
      Yields act { s with focus := t } (fun a s' => Tidy code s' ∧ TreeOf type (Fields.set key s'.focus fs) ∧
        Y (Fields.set key s'.focus fs) ∧ Q a) E) :
    Yields (Step.inField key act) s (fun a s' => At code type Y s' ∧ Q a) E := by
  obtain ⟨seen, fs, hfocus, hof, hX⟩ := h.focus
  obtain ⟨t, hget, hact⟩ := hact seen fs hfocus hof hX
  refine yields_inField hfocus (fun hnone => by rw [hget] at hnone; cases hnone) fun u hu => ?_
  cases hget.symm.trans hu
  refine ⟨(hof.field hget).whole.isShared, hact.mono ?_⟩
  rintro a s' ⟨htidy, hset, hY, hQ⟩
  exact ⟨hset.at_focus (htidy.focus _) rfl hY, hQ⟩

/-- A field is set. -/
theorem setField {R : Unit → Pass → Prop} {t : Tree} (key : String) (hset : ∀ fs, TreeOf type fs → X fs → TreeOf type (Fields.set key t fs))
    (hY : ∀ fs, X fs → Y (Fields.set key t fs)) (hR : ∀ s', At code type Y s' → R () s') : Yields (Step.setField key t) s R E := by
  obtain ⟨seen, fs, hfocus, hof, hX⟩ := h.focus
  rw [yields_setField]
  exact hR _ ((hset fs hof hX).at_focus (h.tidy.focus _) (by rw [hfocus]; rfl) (hY fs hX))

/-- A step on the list of nodes that a field holds. -/
theorem inList {act : Step α} {Q : α → Prop} (key : String) (hfree : type ∉ constrained)
    (hslot : slotAt type key = some (.list types)) (hkey : key ≠ "type") (hY : ∀ fs t, X fs → Y (Fields.set key t fs))
    (hact : ∀ s ts, Tidy code s → s.focus = .arr ts → (∀ t ∈ ts, t.SoundOf types) → Yields act s (fun a s' => Tidy code s' ∧
      (∃ us, s'.focus = .arr us ∧ ∀ u ∈ us, u.SoundOf types) ∧ Q a) E) :
    Yields (Step.inField key act) s (fun a s' => At code type Y s' ∧ Q a) E := by
  refine h.inField key fun seen fs _ hof hX => ?_
  obtain ⟨ts, hget, hts⟩ := hof.list key hslot
  refine ⟨_, hget, (hact _ ts (h.tidy.focus _) rfl hts).mono ?_⟩
  rintro a s' ⟨htidy, ⟨us, hus, hall⟩, hQ⟩
  rw [hus]
  exact ⟨htidy, hof.set_list hfree hslot hall hkey, hY fs _ hX, hQ⟩

end At

/-- A step on a field that holds a node of a type. -/
theorem At.inNode {act : Step α} {Q : α → Prop} (inner key : String) (h : At code type X s) (hX : Lasting X)
    (hliteral : inner ≠ "Literal") (hkey : key ≠ "loc" ∧ key ≠ "range")
    (hthere : ∀ seen fs, s.focus = .obj seen fs → TreeOf type fs → X fs → ∃ t, Fields.get? key fs = some t ∧ t.bare.isOneOf [inner] = true)
    (hact : ∀ s', At code inner Plain s' → Yields act s' (fun a s'' => At code inner Plain s'' ∧ Q a) E) :
    Yields (Step.inField key act) s (fun a s' => At code type X s' ∧ Q a) E := by
  refine h.inField key fun seen fs hfocus hof hXfs => ?_
  obtain ⟨t, hget, hone⟩ := hthere seen fs hfocus hof hXfs
  obtain ⟨_, tseen, tfs, rfl, hmem, htof⟩ :=
    Tree.SoundOf.exists_tree ⟨(hof.field hget).whole, (hof.field hget).json, hone⟩
  cases List.mem_singleton.1 hmem
  refine ⟨_, hget, (hact _ (htof.at_focus (h.tidy.focus _) rfl trivial)).mono ?_⟩
  rintro a s' ⟨h', hQ⟩
  have hbecomes := h'.becomes (t := .obj tseen tfs) htof.type? hliteral
  have hagrees : Json.AgreesEach _ s'.focus.bare := .inl hbecomes.agrees
  exact ⟨h'.tidy, hof.set_agrees hget hagrees hbecomes.sound hkey, hX _ _ _ _ hXfs hget hagrees, hQ⟩

/-- A step on the statements of a block in a field. -/
theorem At.inBlock {act : Step α} {Q : α → Prop} (key : String) (h : At code type X s) (hX : Lasting X)
    (hblock : ∀ fs, X fs → BlockAt key fs) (hkey : key ≠ "loc" ∧ key ≠ "range")
    (hact : ∀ s ts, Tidy code s → s.focus = .arr ts → (∀ t ∈ ts, t.SoundOf listed) → Yields act s (fun a s' => Tidy code s' ∧
      (∃ us, s'.focus = .arr us ∧ ∀ u ∈ us, u.SoundOf listed) ∧ Q a) E) :
    Yields (Step.inField key (Step.inField "body" act)) s (fun a s' => At code type X s' ∧ Q a) E :=
  h.inNode "BlockStatement" key hX (by decide) hkey (fun _ _ _ _ => hblock _)
    fun _ h => h.inList "body" (by decide) rfl (by decide) (fun _ _ _ => trivial) hact

/-! ## Visiting fields -/

section Visits

variable (hvisit : visit.Careful code E) (h : At code type X s)

include hvisit h

/-- A visit of a field that is there. -/
theorem At.visitThere (key : String) (hX : Lasting X) (hkey : key ≠ "loc" ∧ key ≠ "range") {seen : Bool} {fs : Fields Tree} {t : Tree}
    (hfocus : s.focus = .obj seen fs) (hget : Fields.get? key fs = some t) :
    Yields (Visit.field visit key) s (fun _ s' => At code type X s') E := by
  unfold Visit.field
  rw [yields_bind, yields_focus]
  refine (h.inField (Y := X) (Q := fun _ => True) key fun seen' fs' hfocus' hof hXfs => ?_).mono fun _ _ h => h.1
  cases hfocus.symm.trans hfocus'
  refine ⟨t, hget, (hvisit _ _ (h.tidy.focus t) (hof.field hget) ?_).mono fun _ s' ⟨htidy, hbecomes⟩ => ?_⟩
  · rintro p ⟨⟩
    exact h.isParent
  · have hagrees : Json.AgreesEach t.bare s'.focus.bare := .inl hbecomes.agrees
    exact ⟨htidy, hof.set_agrees hget hagrees hbecomes.sound hkey, hX fs key t _ hXfs hget hagrees, trivial⟩

/-- A visit of a field that holds a node. -/
theorem At.visitField (key : String) (hslot : slotAt type key = some (.node types)) (hX : Lasting X)
    (hkey : key ≠ "loc" ∧ key ≠ "range") : Yields (Visit.field visit key) s (fun _ s' => At code type X s') E := by
  obtain ⟨seen, fs, hfocus, hof, -⟩ := h.focus
  obtain ⟨t, hget, -⟩ := hof.required key hslot
  exact h.visitThere hvisit key hX hkey hfocus hget

/-- A field that is visited if it is there, and what comes after. -/
theorem At.visitOptional {R : α → Pass → Prop} {f : Unit → Step α} (key : String) (hX : Lasting X) (hkey : key ≠ "loc" ∧ key ≠ "range")
    (hf : ∀ s', At code type X s' → Yields (f ()) s' R E) : Yields (Step.child? key) s
      (fun o s' => Yields (if o.isSome = true then Visit.field visit key >>= f else f ()) s' R E) E := by
  refine h.child? key (hf s h) fun seen fs t hfocus _ _ hget _ => ?_
  exact (h.visitThere hvisit key hX hkey hfocus hget).bind fun _ s' h => hf s' h

/-- A node in the header of a loop is visited with a queue of its own. -/
theorem At.visitHeader (key : String) (hX : Lasting X) (hkey : key ≠ "loc" ∧ key ≠ "range") :
    Yields (Visit.headerField visit key) s (fun _ s' => At code type X s') E := by
  unfold Visit.headerField
  refine yields_bind.2 (h.child? key (yields_pure.2 h) fun seen fs t hfocus _ _ hget _ => ?_)
  refine yields_ite (fun _ => yields_quietly.2 ?_) fun _ => yields_pure.2 h
  have hquiet : At code type X { s with queue := .empty false } := h.of_focus (h.tidy.emptyQueue false) rfl
  exact (hquiet.visitThere hvisit key hX hkey hfocus hget).mono fun _ s' h' => h'.of_focus (h'.tidy.withQueue h.tidy.queue) rfl

omit h in
/-- The items of a list are visited. -/
theorem yields_visitItems {ts : List Tree} (parent : Option Tree) (htidy : Tidy code s) (hfocus : s.focus = .arr ts) (hts : ∀ t ∈ ts, t.Sound)
    (hparent : ∀ p, parent = some p → p.Sound ∧ p.isNode = true) : Yields (eachItem (visit parent)) s (fun _ s' => Tidy code s' ∧
      ∃ us, s'.focus = .arr us ∧ List.Forall₂ Becomes ts us) E := by
  refine (yields_eachItem (S := Tidy code) (R := Becomes) (A := fun _ => True) (fun _ t h => h.focus t) hfocus htidy
    fun t ht => ⟨(hts t ht).whole.isShared, fun s hs hf => ?_⟩).mono fun _ s' h => ⟨h.1, h.2.1⟩
  refine (hvisit parent s hs (hf ▸ hts t ht) hparent).mono fun _ s' h => ⟨h.1, hf ▸ h.2, trivial⟩

omit h hvisit in
theorem agreesEach_arr {ts us : List Tree} (h : List.Forall₂ Becomes ts us) :
    Json.AgreesEach (Tree.arr ts).bare (Tree.arr us).bare ∧ (Tree.arr us).Sound := by
  refine ⟨.inr ⟨ts.map Tree.bare, us.map Tree.bare, by simp, by simp, ?_⟩, Tree.sound_arr.2 fun u hu => ?_⟩
  · rw [List.forall₂_map_left_iff, List.forall₂_map_right_iff]
    exact h.imp fun t u h => h.agrees
  · obtain ⟨t, -, hbecomes⟩ := exists_of_mem_forall₂ h u hu
    exact hbecomes.sound

omit h in
/-- A value, or each item of a list. -/
theorem yields_visitValue {parent : Tree} (htidy : Tidy code s) (hfocus : s.focus.Sound) (hparent : parent.Sound ∧ parent.isNode = true) :
    Yields (Visit.valueOrItems visit parent) s (fun _ s' => Tidy code s' ∧ s'.focus.Sound ∧
      Json.AgreesEach s.focus.bare s'.focus.bare) E := by
  have hparent' (p : Tree) (hp : some parent = some p) : p.Sound ∧ p.isNode = true := by
    cases hp
    exact hparent
  unfold Visit.valueOrItems
  rw [yields_bind, yields_focus]
  split
  · next ts hts =>
    rw [hts] at hfocus ⊢
    refine yields_discard.2 ((yields_visitItems hvisit _ htidy hts (Tree.sound_arr.1 hfocus) hparent').mono ?_)
    rintro _ s' ⟨htidy', us, hus, hall⟩
    rw [hus]
    exact ⟨htidy', (agreesEach_arr hall).2, (agreesEach_arr hall).1⟩
  · exact (hvisit _ s htidy hfocus hparent').mono fun _ s' h => ⟨h.1, h.2.sound, .inl h.2.agrees⟩

omit h in
/-- All fields in their order; they keep their names. -/
theorem yields_visitFields {seen : Bool} {fs : Fields Tree} (hfocus : s.focus = .obj seen fs) (hof : TreeOf type fs) (htidy : Tidy code s) :
    Yields (Visit.fields visit) s (fun _ s' => At code type (fun gs => Fields.names gs = Fields.names fs) s') E := by
  have hstart : At code type (fun gs => Fields.names gs = Fields.names fs) s := hof.at_focus htidy hfocus rfl
  unfold Visit.fields
  rw [yields_bind, yields_focus, hfocus]
  refine (yields_forIn (Fields.names fs) s (fun key hmem s h => ?_) hstart).bind fun _ _ h => yields_pure.2 h
  refine yields_ite (fun _ => yields_pure.2 ⟨rfl, h⟩) fun hkey => ?_
  have hkey' : key ≠ "loc" ∧ key ≠ "range" := by simpa using hkey
  rw [yields_bind, yields_focus]
  refine (h.inField (Y := fun gs => Fields.names gs = Fields.names fs) (Q := fun _ => True) key fun _ gs _ hof hnames => ?_).bind
    fun _ _ h => yields_pure.2 ⟨rfl, h.1⟩
  obtain ⟨t, hget⟩ := Fields.exists_get? (show key ∈ Fields.names gs from hnames ▸ hmem)
  refine ⟨t, hget, (yields_visitValue hvisit (h.tidy.focus t) (hof.field hget) h.isParent).mono fun _ s' ⟨htidy, hsound, hagrees⟩ => ?_⟩
  exact ⟨htidy, hof.set_agrees hget hagrees hsound hkey', lasting_names _ gs key t _ hnames hget hagrees, trivial⟩

theorem At.visitFields : Yields (Visit.fields visit) s (fun _ s' => At code type Plain s') E := by
  obtain ⟨seen, fs, hfocus, hof, -⟩ := h.focus
  exact (yields_visitFields hvisit hfocus hof h.tidy).mono fun _ _ h => h.plain

/-! ### Statements -/

omit h in
/-- A statement, with the probes to put around it. -/
theorem yields_visitStatement (htidy : Tidy code s) (hfocus : s.focus.SoundOf listed) : Yields (Visit.statement visit) s
    (fun q s' => Tidy code s' ∧ s'.focus.SoundOf listed ∧ ∀ t ∈ q.before ++ q.after, t.SoundOf ["ExpressionStatement"]) E := by
  obtain ⟨type, seen, fs, he, -, hof⟩ := hfocus.exists_tree
  unfold Visit.statement
  rw [yields_bind, yields_focus]
  refine yields_ite (fun _ => yields_pure.2 ⟨htidy, hfocus, List.forall_mem_nil _⟩) fun _ => ?_
  rw [yields_bind, yields_lift]
  rw [he, hof.hasTypeIn, ends_ok, yields_bind, yields_withQueue]
  refine (hvisit none _ (htidy.emptyQueue _) hfocus.sound nofun).mono fun _ s' h => ?_
  exact ⟨h.1.withQueue htidy.queue, h.2.soundOf hfocus, h.1.queue⟩

omit h in
/-- The statements of a list, and what they are with probes around them. -/
theorem yields_visitStatements {ts : List Tree} (htidy : Tidy code s) (hfocus : s.focus = .arr ts) (hts : ∀ t ∈ ts, t.SoundOf listed) :
    Yields (Visit.statements visit) s (fun woven s' => Tidy code s' ∧ (∃ us, s'.focus = .arr us ∧ ∀ u ∈ us, u.SoundOf listed) ∧
      ∀ w ∈ woven, w.SoundOf listed) E := by
  unfold Visit.statements
  refine (yields_eachItem (S := Tidy code) (R := fun _ u => u.SoundOf listed)
    (A := fun q => ∀ t ∈ q.before ++ q.after, t.SoundOf ["ExpressionStatement"]) (fun _ t h => h.focus t) hfocus htidy
    fun t ht => ⟨(hts t ht).whole.isShared, fun s hs hf => yields_visitStatement hvisit hs (hf ▸ hts t ht)⟩).bind ?_
  rintro qs s' ⟨htidy', ⟨us, hus, hall⟩, hqs, -⟩
  have hus' : ∀ u ∈ us, u.SoundOf listed := fun u hu => (exists_of_mem_forall₂ hall u hu).elim fun _ h => h.2
  rw [yields_bind, yields_focus, hus, layer_arr, Layer.elements_arr, yields_bind, yields_lift, ends_ok, yields_pure]
  refine ⟨htidy', ⟨us, hus, hus'⟩, fun w hw => ?_⟩
  rcases mem_weave hw with hw | ⟨q, hq, hw⟩
  · exact hus' w hw
  · exact (hqs q hq w hw).mono (by decide)

omit h in
/-- Probes are put around the statements of a list. -/
theorem yields_visitList {ts : List Tree} (htidy : Tidy code s) (hfocus : s.focus = .arr ts) (hts : ∀ t ∈ ts, t.SoundOf listed) :
    Yields (Visit.statementList visit) s (fun _ s' => Tidy code s' ∧ (∃ us, s'.focus = .arr us ∧ ∀ u ∈ us, u.SoundOf listed) ∧ True) E := by
  unfold Visit.statementList
  refine (yields_visitStatements hvisit htidy hfocus hts).bind ?_
  rintro woven s' ⟨htidy', ⟨us, hus, -⟩, hwoven⟩
  exact (yields_changeList_arr hus).2 ⟨htidy'.focus _, ⟨woven, rfl, hwoven⟩, trivial⟩

end Visits

end Node

end Passes

end ScriptTrace
