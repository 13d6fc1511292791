import ScriptTrace.Proofs.NodeReading

/-!
# Parts of proper nodes

* `Proper.field`, `Proper.item` : parts of proper values are proper;
* `Proper.fits` : a field of a proper node holds what its slot allows;
* `fits_node`, `fits_optional`, `fits_list`, `fits_gaps` : what it means that a slot allows a value;
* `Proper.inert` : fields outside the slots for nodes hold none.
-/

namespace ScriptTrace

namespace Json

theorem isOneOf_iff {types : List String} {v : Json} :
    v.isOneOf types = true ↔ ∃ fields type, v = .obj fields ∧ Fields.type? fields = some type ∧ type ∈ types := by
  cases v with
  | obj fields =>
    cases h : Fields.type? fields <;> simp [isOneOf, type?, h]
  | _ => simp [isOneOf, type?]

theorem isOneOf_obj {types : List String} {fields : Fields Json} {type : String}
    (h : Fields.type? fields = some type) : (Json.obj fields).isOneOf types = types.contains type := by
  simp [isOneOf, type?, h]

/-! ## Slots -/

theorem fits_node {types : List String} {o : Option Json} (h : (Slot.node types).fits o = true) :
    ∃ fields type, o = some (.obj fields) ∧ Fields.type? fields = some type ∧ type ∈ types := by
  cases o with
  | none => cases h
  | some v =>
    obtain ⟨fields, type, rfl, ht, hmem⟩ := isOneOf_iff.1 h
    exact ⟨fields, type, rfl, ht, hmem⟩

theorem fits_optional {types : List String} {o : Option Json} (h : (Slot.optional types).fits o = true) :
    o = none ∨ o = some .null ∨
      ∃ fields type, o = some (.obj fields) ∧ Fields.type? fields = some type ∧ type ∈ types := by
  cases o with
  | none => exact .inl rfl
  | some v =>
    cases v with
    | null => exact .inr (.inl rfl)
    | _ =>
      obtain ⟨fields, type, he, ht, hmem⟩ := isOneOf_iff.1 h
      exact .inr (.inr ⟨fields, type, congrArg some he, ht, hmem⟩)

theorem fits_list {types : List String} {o : Option Json} (h : (Slot.list types).fits o = true) :
    ∃ items, o = some (.arr items) ∧ ∀ x ∈ items, x.isOneOf types = true := by
  cases o with
  | none => cases h
  | some v =>
    cases v with
    | arr items => exact ⟨items, rfl, List.all_eq_true.1 h⟩
    | _ => cases h

theorem fits_gaps {types : List String} {o : Option Json} (h : (Slot.gaps types).fits o = true) :
    ∃ items, o = some (.arr items) ∧ ∀ x ∈ items, x = .null ∨ x.isOneOf types = true := by
  cases o with
  | none => cases h
  | some v =>
    cases v with
    | arr items =>
      refine ⟨items, rfl, fun x hx => ?_⟩
      have hx' := List.all_eq_true.1 h x hx
      cases x with
      | null => exact .inl rfl
      | _ => exact .inr hx'
    | _ => cases h

theorem fits_text {o : Option Json} (h : Slot.text.fits o = true) : ∃ s, o = some (.str s) := by
  cases o with
  | none => cases h
  | some v => cases v with
    | str s => exact ⟨s, rfl⟩
    | _ => cases h

theorem fits_flag {o : Option Json} (h : Slot.flag.fits o = true) : o = none ∨ ∃ b, o = some (.bool b) := by
  cases o with
  | none => exact .inl rfl
  | some v =>
    cases v with
    | bool b => exact .inr ⟨b, rfl⟩
    | _ => cases h

theorem fits_range {o : Option Json} (h : Slot.range.fits o = true) :
    o = none ∨ o = some .null ∨ ∃ a b, o = some (.arr [.int a, .int b]) := by
  cases o with
  | none => exact .inl rfl
  | some v =>
    cases v with
    | null => exact .inr (.inl rfl)
    | arr items =>
      obtain _ | ⟨a, _ | ⟨b, _ | ⟨c, items⟩⟩⟩ := items
      · cases h
      · cases a <;> cases h
      · cases a <;> cases b <;> first | exact .inr (.inr ⟨_, _, rfl⟩) | cases h
      · cases a <;> cases b <;> cases h
    | _ => cases h

theorem fits_value {v : Json} (h : Slot.value.fits (some v) = true) : v.isInert = true := by
  cases v <;> exact h

theorem fits_optionalValue {v : Json} (h : Slot.optionalValue.fits (some v) = true) : v.isInert = true := by
  cases v <;> exact h

/-- Slots that hold no nodes. -/
def isScalar : Slot → Bool
  | .text | .optionalText | .flag | .value | .optionalValue => true
  | _ => false

theorem inert_of_fits {slot : Slot} {v : Json} (hs : isScalar slot = true) (h : slot.fits (some v) = true) :
    v.isInert = true := by
  cases slot with
  | text | optionalText | flag => cases v <;> first | rfl | cases h
  | value => exact fits_value h
  | optionalValue => exact fits_optionalValue h
  | _ => cases hs

/-! ## Proper values -/

section Proper

variable {fields : Fields Json} {type key : String} {v : Json}

theorem Proper.field (h : (Json.obj fields).Proper) (hv : Fields.get? key fields = some v) : v.Proper :=
  everyObject_get? h hv

theorem Proper.item {items : List Json} (h : (Json.arr items).Proper) (hv : v ∈ items) : v.Proper :=
  everyObject_arr.1 h v hv

theorem Proper.field_of {j : Json} (h : j.Proper) (key : String) : (j.field key).Proper := everyObject_field h key

theorem Proper.of_mem_items {j x : Json} (h : j.Proper) (hx : x ∈ j.items) : x.Proper := everyObject_mem_items h hx

theorem Proper.isProper (h : (Json.obj fields).Proper) : Grammar.isProper fields = true := (everyObject_obj.1 h).1

theorem Proper.nodup (h : (Json.obj fields).Proper) : (Fields.names fields).Nodup :=
  of_decide_eq_true (Bool.and_eq_true_iff.1 h.isProper).1

/-- A node has a type. -/
theorem Proper.exists_type (h : (Json.obj fields).Proper) (hnode : (Json.obj fields).isNode = true) :
    ∃ type, Fields.type? fields = some type := by
  have hp := (Bool.and_eq_true_iff.1 h.isProper).2
  rw [isNode_obj] at hnode
  cases ht : Fields.get? "type" fields with
  | none => rw [ht] at hnode; cases hnode
  | some t =>
    rw [ht] at hp
    cases t with
    | str type => exact ⟨type, Fields.type?_of_get? ht⟩
    | _ => cases hp

theorem Proper.isNodeOf (h : (Json.obj fields).Proper) (htype : Fields.type? fields = some type) :
    Grammar.isNodeOf type fields = true := by
  have hp := (Bool.and_eq_true_iff.1 h.isProper).2
  rw [Fields.get?_of_type? htype] at hp
  exact hp

theorem Proper.exists_shape (h : (Json.obj fields).Proper) (htype : Fields.type? fields = some type) :
    ∃ slots, Grammar.shape type = some slots := by
  have hp := h.isNodeOf htype
  unfold Grammar.isNodeOf at hp
  cases hs : Grammar.shape type with
  | none => rw [hs] at hp; cases hp
  | some slots => exact ⟨slots, rfl⟩

/-- A field of a node holds what its slot allows. -/
theorem Proper.fits (key : String) {slots : List (String × Slot)} {slot : Slot} (h : (Json.obj fields).Proper)
    (htype : Fields.type? fields = some type) (hshape : Grammar.shape type = some slots)
    (hslot : Fields.get? key slots = some slot) : slot.fits (Fields.get? key fields) = true := by
  have hp := h.isNodeOf htype
  simp only [Grammar.isNodeOf, hshape, Bool.and_eq_true, List.all_eq_true] at hp
  exact hp.1.1 (key, slot) (List.mem_append_left _ (Fields.mem_of_get? hslot))

/-- A field for a node holds one. -/
theorem Proper.exists_node (h : (Json.obj fields).Proper) (htype : Fields.type? fields = some type)
    (hrows : ∀ row ∈ Grammar.table, type ∈ row.1 → (Fields.get? key row.2).any Slot.isNode = true) :
    ∃ node ntype, Fields.get? key fields = some (.obj node) ∧ Fields.type? node = some ntype := by
  obtain ⟨slots, hshape⟩ := h.exists_shape htype
  obtain ⟨row, hrow, hmem, rfl⟩ := ofGroup_mem_types hshape
  obtain ⟨slot, hslot, hkind⟩ := (Option.any_eq_true _ _).1 (hrows row hrow hmem)
  obtain ⟨types, rfl⟩ := Slot.exists_of_isNode hkind
  obtain ⟨node, ntype, hnode, hntype, -⟩ := fits_node (h.fits _ htype hshape hslot)
  exact ⟨node, ntype, hnode, hntype⟩

/-- A field that is no slot of its type is common to all nodes or holds no nodes. -/
theorem Proper.fits_found {slots : List (String × Slot)} (h : (Json.obj fields).Proper)
    (htype : Fields.type? fields = some type) (hshape : Grammar.shape type = some slots)
    (hv : Fields.get? key fields = some v) :
    ∃ slot, Grammar.slotOf (slots ++ Grammar.common) key = some slot ∧ slot.fits (some v) = true := by
  have hp := h.isNodeOf htype
  simp only [Grammar.isNodeOf, hshape, Bool.and_eq_true, List.all_eq_true] at hp
  have hf := hp.1.2 (key, v) (Fields.mem_of_get? hv)
  obtain ⟨slot, hslot, hfits⟩ := (Option.any_eq_true _ _).1 hf
  exact ⟨slot, hslot, hfits⟩

theorem Proper.consistent {slots : List (String × Slot)} (h : (Json.obj fields).Proper)
    (htype : Fields.type? fields = some type) (hshape : Grammar.shape type = some slots) :
    Grammar.isConsistent type fields = true := by
  have hp := h.isNodeOf htype
  simp only [Grammar.isNodeOf, hshape, Bool.and_eq_true] at hp
  exact hp.2

end Proper

/-- A field whose slot, if it has one, holds no nodes is inert. -/
theorem Proper.inert {fields : Fields Json} {type key : String} {v : Json} (h : (Json.obj fields).Proper)
    (htype : Fields.type? fields = some type) (hv : Fields.get? key fields = some v)
    (hkey : key ≠ "loc" ∧ key ≠ "range")
    (hslot : ∀ slots slot, Grammar.shape type = some slots → Fields.get? key slots = some slot → isScalar slot = true) :
    v.isInert = true := by
  obtain ⟨slots, hshape⟩ := h.exists_shape htype
  obtain ⟨slot, hs, hfits⟩ := h.fits_found htype hshape hv
  refine inert_of_fits ?_ hfits
  have hget := Fields.get?_append key slots Grammar.common
  unfold Grammar.slotOf at hs
  rw [hget] at hs
  cases hk : Fields.get? key slots with
  | some s =>
    rw [hk] at hs
    cases hs
    exact hslot slots slot hshape hk
  | none =>
    rw [hk] at hs
    simp only [Option.orElse_none] at hs
    by_cases ht : key = "type"
    · subst ht
      cases hs
      rfl
    · have hc : Fields.get? key Grammar.common = none := by
        simp [Grammar.common, Fields.get?, Ne.symm ht, Ne.symm hkey.1, Ne.symm hkey.2]
      rw [hc] at hs
      simp only at hs
      split at hs
      · cases hs
      · cases hs
        rfl

end Json

end ScriptTrace
