import ScriptTrace.Proofs.ProperNodes
import ScriptTrace.Proofs.PrintingFaults

/-!
# Sound nodes

A well-formed program can still hold what has no printed form: a `with` statement, an operator that there is none of,
a template element without its text, an accessor whose value is no function, or a tagged template that carries an
object beside its tag. A sound value holds none of these.

* `Json.Supported`, `Json.Sound` : values with a printed form, and such that are proper as well;
* `NodeOf` : the fields of a sound node of a type;
* `NodeOf.node`, `NodeOf.optional`, `NodeOf.list`, `NodeOf.gaps` : what a field of such a node holds;
* `NodeOf.set` : the node with another value in a field that allows it.
-/

namespace ScriptTrace

namespace Grammar

/-- The slot of a field of a type. -/
def slotAt (type key : String) : Option Slot := (shape type).bind (Fields.get? key)

/-- Whether a value carries the raw text of a template element. -/
def hasRaw (v : Json) : Bool := !v.isNode && (v.get? "raw").any fun raw => raw.string?.isSome

/-- Conditions beside the grammar under which a node of a type has a printed form. -/
def isSupported (type : String) (fields : Fields Json) : Bool :=
  match type with
  | "WithStatement" => false
  | "BinaryExpression" | "LogicalExpression" =>
    (Fields.get? "operator" fields).any fun o => (o.string?.bind Precedence.binary?).isSome
  | "TemplateElement" => (Fields.get? "value" fields).any hasRaw
  | "Property" => !Joint.isMethod fields || (Fields.get? "value" fields).any (Json.isOneOf ["FunctionExpression"])
  | "TaggedTemplateExpression" => (Fields.get? "object" fields).isNone
  | _ => true

/-- Whether fields are proper and have a printed form. -/
def isSound (fields : Fields Json) : Bool :=
  isProper fields && (Fields.type? fields).all (isSupported · fields)

end Grammar

namespace Json

/-- A value in which every node has a printed form. -/
def Supported (j : Json) : Prop := j.everyObject (fun fields => (Fields.type? fields).all (Grammar.isSupported · fields)) = true

instance (j : Json) : Decidable j.Supported := inferInstanceAs (Decidable (_ = _))

/-- A value in which every node has the fields of its type and a printed form. -/
def Sound (j : Json) : Prop := j.everyObject Grammar.isSound = true

theorem everyObject_and {p q : Fields Json → Bool} (j : Json) :
    j.everyObject (fun fields => p fields && q fields) = true ↔ j.everyObject p = true ∧ j.everyObject q = true := by
  induction j using Json.ind with
  | scalar j hj => cases j <;> first | exact ⟨fun _ => ⟨rfl, rfl⟩, fun _ => rfl⟩ | cases hj
  | arr items ih =>
    rw [everyObject_arr, everyObject_arr, everyObject_arr, ← forall₂_and]
    exact forall₂_congr ih
  | obj fields ih =>
    rw [everyObject_obj, everyObject_obj, everyObject_obj, Bool.and_eq_true, and_and_and_comm, ← forall₂_and]
    exact and_congr_right fun _ => forall₂_congr ih

theorem sound_iff {j : Json} : j.Sound ↔ j.Proper ∧ j.Supported := everyObject_and j

section Sound

variable {fields : Fields Json} {type key : String} {v : Json} {types : List String}

theorem Sound.proper (h : v.Sound) : v.Proper := (sound_iff.1 h).1

theorem Sound.field (h : (Json.obj fields).Sound) (hv : Fields.get? key fields = some v) : v.Sound :=
  everyObject_get? h hv

theorem Sound.item {items : List Json} (h : (Json.arr items).Sound) (hv : v ∈ items) : v.Sound :=
  everyObject_arr.1 h v hv

end Sound

end Json

/-- The fields of a sound node of a type. -/
structure NodeOf (type : String) (fields : Fields Json) : Prop where
  sound : (Json.obj fields).Sound
  type : Fields.type? fields = some type

namespace Json

theorem Sound.exists_node {v : Json} {types : List String} (h : v.Sound) (hone : v.isOneOf types = true) :
    ∃ type fields, v = .obj fields ∧ type ∈ types ∧ NodeOf type fields := by
  obtain ⟨fields, type, rfl, htype, hmem⟩ := isOneOf_iff.1 hone
  exact ⟨type, fields, rfl, hmem, h, htype⟩

end Json

namespace NodeOf

open Json Grammar

variable {type : String} {fields : Fields Json} {types : List String}

theorem fits {key : String} {slot : Slot} (h : NodeOf type fields) (hslot : slotAt type key = some slot) :
    slot.fits (Fields.get? key fields) = true := by
  obtain ⟨slots, hshape, hget⟩ := Option.bind_eq_some_iff.1 hslot
  exact h.sound.proper.fits key h.type hshape hget

/-- A field that holds a node. -/
theorem node (h : NodeOf type fields) (key : String) (hslot : slotAt type key = some (.node types)) :
    ∃ v, Fields.get? key fields = some v ∧ v.Sound ∧ v.isOneOf types = true := by
  have hfits := h.fits hslot
  cases hv : Fields.get? key fields with
  | none => rw [hv] at hfits; cases hfits
  | some v =>
    rw [hv] at hfits
    exact ⟨v, rfl, h.sound.field hv, hfits⟩

/-- A field that holds a node, or nothing. -/
theorem optional {v : Json} (h : NodeOf type fields) (key : String) (hslot : slotAt type key = some (.optional types))
    (hv : Fields.get? key fields = some v) : v = .null ∨ v.Sound ∧ v.isOneOf types = true := by
  have hfits := h.fits hslot
  rw [hv] at hfits
  cases v with
  | null => exact .inl rfl
  | _ => exact .inr ⟨h.sound.field hv, hfits⟩

/-- A field that holds a list of nodes. -/
theorem list (h : NodeOf type fields) (key : String) (hslot : slotAt type key = some (.list types)) :
    ∃ items, Fields.get? key fields = some (.arr items) ∧ ∀ v ∈ items, v.Sound ∧ v.isOneOf types = true := by
  obtain ⟨items, hv, hitems⟩ := fits_list (h.fits hslot)
  exact ⟨items, hv, fun v hmem => ⟨(h.sound.field hv).item hmem, hitems v hmem⟩⟩

/-- A field that holds a list of nodes with gaps. -/
theorem gaps (h : NodeOf type fields) (key : String) (hslot : slotAt type key = some (.gaps types)) :
    ∃ items, Fields.get? key fields = some (.arr items) ∧ ∀ v ∈ items, v = .null ∨ v.Sound ∧ v.isOneOf types = true := by
  obtain ⟨items, hv, hitems⟩ := fits_gaps (h.fits hslot)
  exact ⟨items, hv, fun v hmem => (hitems v hmem).imp_right fun hone => ⟨(h.sound.field hv).item hmem, hone⟩⟩

/-- A field that holds a string. -/
theorem text (h : NodeOf type fields) (key : String) (hslot : slotAt type key = some .text) : ∃ s, Fields.get? key fields = some (.str s) :=
  fits_text (h.fits hslot)

theorem isNode (h : NodeOf type fields) : (Json.obj fields).isNode = true := isNode_of_type? (j := .obj fields) h.type

theorem supported (h : NodeOf type fields) : isSupported type fields = true := by
  have hown := (Bool.and_eq_true_iff.1 (everyObject_obj.1 h.sound).1).2
  rwa [h.type] at hown

theorem consistent (h : NodeOf type fields) : isConsistent type fields = true := by
  obtain ⟨slots, hshape⟩ := h.sound.proper.exists_shape h.type
  exact h.sound.proper.consistent h.type hshape

end NodeOf

/-! ## Other values in the fields of a node -/

namespace Json

/-- Values that are the same, or nodes of the same type, of which a literal has a value if the other has one. -/
def Agrees (v w : Json) : Prop :=
  v = w ∨ ∃ type, v.type? = some type ∧ w.type? = some type ∧
    (type = "Literal" → (w.get? "value").isSome = (v.get? "value").isSome)

/-- Values that agree, or lists of items that do. -/
def AgreesEach (v w : Json) : Prop := Agrees v w ∨ ∃ vs ws, v = .arr vs ∧ w = .arr ws ∧ List.Forall₂ Agrees vs ws

section Agrees

variable {v w : Json}

theorem Agrees.refl (v : Json) : Agrees v v := .inl rfl

theorem Agrees.trans {u : Json} (h : Agrees u v) (h' : Agrees v w) : Agrees u w := by
  rcases h with rfl | ⟨type, hu, hv, hvalue⟩
  · exact h'
  · rcases h' with rfl | ⟨type', hv', hw, hvalue'⟩
    · exact .inr ⟨type, hu, hv, hvalue⟩
    · cases hv.symm.trans hv'
      exact .inr ⟨type, hu, hw, fun htype => (hvalue' htype).trans (hvalue htype)⟩

theorem Agrees.isOneOf (h : Agrees v w) (types : List String) : w.isOneOf types = v.isOneOf types := by
  rcases h with rfl | ⟨type, hv, hw, -⟩
  · rfl
  · rw [Json.isOneOf, Json.isOneOf, hv, hw]

theorem Agrees.isNode (h : Agrees v w) : w.isNode = v.isNode := by
  rcases h with rfl | ⟨type, hv, hw, -⟩
  · rfl
  · rw [isNode_of_type? hv, isNode_of_type? hw]

/-- A key that is written out is one when it agrees with one. -/
theorem Agrees.isWrittenKey (h : Agrees v w) : Grammar.isWrittenKey w = Grammar.isWrittenKey v := by
  rw [Grammar.isWrittenKey, Grammar.isWrittenKey, h.isOneOf, h.isOneOf]
  rcases h with rfl | ⟨type, hv, -, hvalue⟩
  · rfl
  · by_cases htype : type = "Literal"
    · rw [hvalue htype]
    · have hnot : v.isOneOf ["Literal"] = false := by simp [Json.isOneOf, hv, htype]
      rw [hnot, Bool.false_and, Bool.false_and]

/-- What answers alike of nodes that agree, and of no list looks at its items, answers alike. -/
theorem AgreesEach.congr {α : Type} (h : AgreesEach v w) (p : Json → α)
    (hnode : ∀ type v w, v.type? = some type → w.type? = some type → Agrees v w → p v = p w)
    (hlist : ∀ vs ws, List.Forall₂ Agrees vs ws → p (.arr vs) = p (.arr ws)) : p w = p v := by
  rcases h with hagrees | ⟨vs, ws, rfl, rfl, hall⟩
  · rcases hagrees with rfl | ⟨type, hv, hw, hvalue⟩
    · rfl
    · exact (hnode type v w hv hw (.inr ⟨type, hv, hw, hvalue⟩)).symm
  · exact (hlist vs ws hall).symm

theorem exists_obj_of_type? {type : String} (h : v.type? = some type) : ∃ fields, v = .obj fields ∧ fields.isEmpty = false := by
  cases v with
  | obj fields =>
    refine ⟨fields, rfl, ?_⟩
    cases fields with
    | nil => cases h
    | cons f fields => rfl
  | _ => cases h

theorem AgreesEach.isOneOf (h : AgreesEach v w) (types : List String) : w.isOneOf types = v.isOneOf types :=
  h.congr (Json.isOneOf types) (fun _ _ _ _ _ hagrees => (hagrees.isOneOf types).symm) fun _ _ _ => rfl

theorem AgreesEach.truthy (h : AgreesEach v w) : w.truthy = v.truthy := by
  refine h.congr Json.truthy (fun type v w hv hw _ => ?_) fun vs ws hall => ?_
  · obtain ⟨fs, rfl, hfs⟩ := exists_obj_of_type? hv
    obtain ⟨gs, rfl, hgs⟩ := exists_obj_of_type? hw
    rw [Json.truthy, Json.truthy, hfs, hgs]
  · cases hall <;> rfl

theorem AgreesEach.string? (h : AgreesEach v w) : w.string? = v.string? := by
  refine h.congr Json.string? (fun type v w hv hw _ => ?_) fun _ _ _ => rfl
  obtain ⟨fs, rfl, -⟩ := exists_obj_of_type? hv
  obtain ⟨gs, rfl, -⟩ := exists_obj_of_type? hw
  rfl

theorem AgreesEach.isWrittenKey (h : AgreesEach v w) : Grammar.isWrittenKey w = Grammar.isWrittenKey v :=
  h.congr Grammar.isWrittenKey (fun _ _ _ _ _ hagrees => hagrees.isWrittenKey.symm) fun _ _ _ => rfl

theorem AgreesEach.hasRaw (h : AgreesEach v w) : Grammar.hasRaw w = Grammar.hasRaw v := by
  refine h.congr Grammar.hasRaw (fun type v w hv hw _ => ?_) fun _ _ _ => rfl
  rw [Grammar.hasRaw, Grammar.hasRaw, isNode_of_type? hv, isNode_of_type? hw]
  rfl

theorem all_of_agrees {vs ws : List Json} {p : Json → Bool} (hp : ∀ v w, Agrees v w → p w = p v)
    (h : List.Forall₂ Agrees vs ws) : ws.all p = vs.all p := by
  induction h with
  | nil => rfl
  | cons hvw _ ih => rw [List.all_cons, List.all_cons, ih, hp _ _ hvw]

end Agrees

end Json

namespace Slot

open Json

/-- A slot for positions in the program. -/
def isPositional : Slot → Bool
  | position | range => true
  | _ => false

/-- A slot that allows a value allows one that agrees with it. -/
theorem fits_agrees {slot : Slot} {v w : Json} (h : AgreesEach v w) (hslot : slot.isPositional = false)
    (hfits : slot.fits (some v) = true) : slot.fits (some w) = true := by
  rcases h with (rfl | ⟨type, hv, hw, hvalue⟩) | ⟨vs, ws, rfl, rfl, hall⟩
  · exact hfits
  · obtain ⟨fs, rfl, -⟩ := exists_obj_of_type? hv
    obtain ⟨gs, rfl, -⟩ := exists_obj_of_type? hw
    have hone (types : List String) : (Json.obj gs).isOneOf types = (Json.obj fs).isOneOf types :=
      Agrees.isOneOf (.inr ⟨type, hv, hw, hvalue⟩) types
    cases slot with
    | node types => exact (hone types).trans hfits
    | optional types => exact (hone types).trans hfits
    | value | optionalValue =>
      have hinert : (!(Json.obj fs).isNode) = true := hfits
      rw [isNode_of_type? hv] at hinert
      cases hinert
    | position => cases hslot
    | range => cases hslot
    | _ => cases hfits
  · cases slot with
    | value | optionalValue =>
      refine (all_of_agrees (fun v w h => ?_) hall).trans hfits
      rw [h.isNode]
    | list types => exact (all_of_agrees (fun v w h => h.isOneOf types) hall).trans hfits
    | gaps types =>
      refine (all_of_agrees (fun v w h => ?_) hall).trans hfits
      rcases h with rfl | ⟨type, hv, hw, hvalue⟩
      · rfl
      · obtain ⟨fs, rfl, -⟩ := exists_obj_of_type? hv
        obtain ⟨gs, rfl, -⟩ := exists_obj_of_type? hw
        exact Agrees.isOneOf (.inr ⟨type, hv, hw, hvalue⟩) types
    | range => cases hslot
    | _ => cases hfits

end Slot

namespace Fields

variable {α : Type} {key : String} {w : α} {fields : Fields α}

/-- Fields that are set once more have a name twice only if they had one before. -/
theorem nodup_names_set (h : (names fields).Nodup) : (names (set key w fields)).Nodup := by
  rw [names_set]
  split
  · exact h
  · next hkey =>
    refine List.nodup_append.2 ⟨h, List.pairwise_singleton _ key, fun k hk k' hk' => ?_⟩
    cases List.mem_singleton.1 hk'
    exact ne_of_mem_of_not_mem hk hkey

end Fields

namespace Grammar

/-- In the grammar no type has two fields of a name, and none has a slot for positions. -/
theorem table_names : ∀ g ∈ table, (Fields.names (g.2 ++ common)).Nodup ∧ ∀ slot ∈ g.2, slot.2.isPositional = false := by
  decide +kernel

theorem mem_table_of_shape {type : String} {slots : List (String × Slot)} (h : shape type = some slots) :
    ∃ g ∈ table, g.2 = slots := by
  obtain ⟨g, hg, rfl⟩ := Option.map_eq_some_iff.1 h
  exact ⟨g, List.mem_of_find?_eq_some hg, rfl⟩

/-- Types whose nodes are under conditions that tell of more than one field, or of more than a field's slot. -/
def constrained : List String :=
  ["Property", "MethodDefinition", "MemberExpression", "ExpressionStatement", "BinaryExpression", "LogicalExpression",
    "TemplateElement", "TaggedTemplateExpression", "WithStatement"]

theorem consistent_of_unconstrained {type : String} (h : type ∉ constrained) (fields : Fields Json) :
    isConsistent type fields = true := by
  unfold isConsistent
  split <;> first | rfl | exact absurd (by decide) h

theorem supported_of_unconstrained {type : String} (h : type ∉ constrained) (fields : Fields Json) :
    isSupported type fields = true := by
  unfold isSupported
  split <;> first | rfl | exact absurd (by decide) h

end Grammar

namespace NodeOf

open Json Grammar

variable {type key : String} {fields : Fields Json} {w : Json}

/-- A node of the same type, with another value in a field. -/
theorem of_set (h : NodeOf type fields) (hkey : key ≠ "type") (hw : w.Sound)
    (hfits : ∀ slots, shape type = some slots → ∃ slot, slotOf (slots ++ common) key = some slot ∧ slot.fits (some w) = true)
    (hconsistent : isConsistent type (Fields.set key w fields) = true)
    (hsupported : isSupported type (Fields.set key w fields) = true) : NodeOf type (Fields.set key w fields) := by
  obtain ⟨slots, hshape⟩ := h.sound.proper.exists_shape h.type
  obtain ⟨g, hg, rfl⟩ := mem_table_of_shape hshape
  obtain ⟨slot, hslot, hfits⟩ := hfits _ hshape
  have htype : Fields.type? (Fields.set key w fields) = some type := by
    rw [Fields.type?, Fields.get?_set, if_neg hkey]
    exact h.type
  have hnode := h.sound.proper.isNodeOf h.type
  simp only [isNodeOf, hshape, Bool.and_eq_true, List.all_eq_true] at hnode
  obtain ⟨⟨hslots, hfields⟩, -⟩ := hnode
  refine ⟨everyObject_obj.2 ⟨?_, fun f hf => ?_⟩, htype⟩
  · have hown : isNodeOf type (Fields.set key w fields) = true := by
      simp only [isNodeOf, hshape, Bool.and_eq_true, List.all_eq_true]
      refine ⟨⟨fun s hs => ?_, fun f hf => ?_⟩, hconsistent⟩
      · rw [Fields.get?_set]
        split
        · next he =>
          subst he
          rw [slotOf, Fields.get?_of_mem (table_names g hg).1 (show (s.1, s.2) ∈ _ from hs)] at hslot
          cases hslot
          exact hfits
        · exact hslots s hs
      · rcases Fields.mem_set hf with rfl | hf
        · rw [hslot, Option.any_some]
          exact hfits
        · exact hfields f hf
    rw [isSound, isProper, htype, Fields.get?_of_type? htype, Bool.and_eq_true, Bool.and_eq_true]
    exact ⟨⟨decide_eq_true (Fields.nodup_names_set h.sound.proper.nodup), hown⟩, hsupported⟩
  · rcases Fields.mem_set hf with rfl | hf
    · exact hw
    · exact (everyObject_obj.1 h.sound).2 f hf

/-- A field of the grammar is set to another value that it may hold. -/
theorem set {slot : Slot} (h : NodeOf type fields) (hfree : type ∉ constrained) (hslot : slotAt type key = some slot)
    (hfits : slot.fits (some w) = true) (hw : w.Sound) (hkey : key ≠ "type") : NodeOf type (Fields.set key w fields) := by
  refine h.of_set hkey hw (fun slots hshape => ?_) (consistent_of_unconstrained hfree _) (supported_of_unconstrained hfree _)
  rw [slotAt, hshape] at hslot
  refine ⟨slot, ?_, hfits⟩
  rw [slotOf, Fields.get?_append, show Fields.get? key slots = some slot from hslot]
  rfl

/-- A field is set to a value that agrees with the one it holds. -/
theorem set_agrees {v : Json} (h : NodeOf type fields) (hv : Fields.get? key fields = some v) (hvw : AgreesEach v w)
    (hw : w.Sound) (hkey : key ≠ "loc" ∧ key ≠ "range") : NodeOf type (Fields.set key w fields) := by
  have hany (k : String) (p : Json → Bool) (hp : p w = p v) :
      (Fields.get? k (Fields.set key w fields)).any p = (Fields.get? k fields).any p := by
    rw [Fields.get?_set]
    split
    · next he => rw [← he, hv, Option.any_some, Option.any_some, hp]
    · rfl
  by_cases htype : key = "type"
  · subst htype
    rw [Fields.get?_of_type? h.type] at hv
    cases hv
    have hsame : w = .str type := by
      rcases hvw with (rfl | ⟨_, hv, -⟩) | ⟨_, _, hv, -⟩
      · rfl
      · cases hv
      · cases hv
    rw [hsame, Fields.set_of_get? (Fields.get?_of_type? h.type)]
    exact h
  refine h.of_set htype hw (fun slots hshape => ?_) ?_ ?_
  · obtain ⟨slot, hslot, hfits⟩ := h.sound.proper.fits_found h.type hshape hv
    refine ⟨slot, hslot, Slot.fits_agrees hvw ?_ hfits⟩
    obtain ⟨g, hg, rfl⟩ := mem_table_of_shape hshape
    rw [slotOf, Fields.get?_append] at hslot
    cases hget : Fields.get? key g.2 with
    | some s =>
      rw [hget] at hslot
      cases hslot
      exact (table_names g hg).2 _ (Fields.mem_of_get? hget)
    | none =>
      rw [hget, Option.orElse_none, common] at hslot
      simp only [Fields.get?, if_neg (Ne.symm htype), if_neg hkey.1.symm, if_neg hkey.2.symm] at hslot
      split at hslot
      · cases hslot
      · cases hslot
        rfl
  · have hconsistent := h.consistent
    unfold isConsistent at hconsistent ⊢
    simpa only [hany _ _ hvw.truthy, hany _ _ (hvw.isOneOf _), hany _ _ hvw.isWrittenKey] using hconsistent
  · have hsupported := h.supported
    have hstring (p : Option String → Bool) : p w.string? = p v.string? := by rw [hvw.string?]
    have hnone (k : String) : (Fields.get? k (Fields.set key w fields)).isNone = (Fields.get? k fields).isNone := by
      rw [Fields.get?_set]
      split
      · next he => rw [← he, hv]; rfl
      · rfl
    unfold isSupported Joint.isMethod at hsupported ⊢
    simpa only [hany _ _ hvw.truthy, hany _ _ (hvw.isOneOf _), hany _ _ hvw.hasRaw,
      hany _ (fun o => (o.string?.bind Precedence.binary?).isSome) (hstring fun o => (o.bind Precedence.binary?).isSome),
      hany _ (fun kind => kind.string? == some "get" || kind.string? == some "set")
        (hstring fun o => o == some "get" || o == some "set"), hnone] using hsupported

end NodeOf

end ScriptTrace
