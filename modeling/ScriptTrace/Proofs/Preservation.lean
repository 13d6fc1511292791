import ScriptTrace.Proofs.ProperNodes
import ScriptTrace.Proofs.Rewriting

/-!
# What instrumenting leaves as it is

Probes that are put into a tree ask it again for names and targets. They are the same before and after
the parts of the tree are rewritten.

* `get?_prepared`, `exists_made` : the fields of a node while it is worked on;
* `Rewrites.inert`, `scalar_out` : names, flags and other plain values are kept;
* `Rewrites.type` : the type of a node is kept;
* `Rewrites.bindingNames`, `Rewrites.targetsOf`, `Rewrites.writtenTargets` : so are its names and targets.
-/

namespace ScriptTrace

open Rewriting

variable {code : Option String} {m : Mode} {classes : List Json} {up : Option Json}

/-! ## The fields of a node -/

namespace Fields

variable {α β : Type}

theorem get?_mapWithKey (f : String → α → β) (key : String) : ∀ fields : Fields α,
    get? key (fields.map fun p => (p.1, f p.1 p.2)) = (get? key fields).map (f key)
  | [] => rfl
  | (k, v) :: rest => by
    by_cases h : k = key
    · simp [get?, h]
    · simpa [get?, h] using get?_mapWithKey f key rest

theorem names_mapWithKey (f : String → α → β) (fields : Fields α) :
    names (fields.map fun p => (p.1, f p.1 p.2)) = names fields := by
  simp [names, Function.comp_def]

/-- Fields with the same names have values under the same names. -/
theorem exists_get?_of_names {as : Fields α} {bs : Fields β} {key : String} {v : α} (h : names bs = names as)
    (hv : get? key as = some v) : ∃ w, get? key bs = some w :=
  exists_get? (h ▸ mem_names_of_get? hv)

end Fields

section Node

variable {type key : String} {fields made out : Fields Json} {v : Json}

theorem get?_completed (hkey : key = "expression" → type ∉ functionTypes) (hv : Fields.get? key fields = some v) :
    Fields.get? key (completed type fields) = some v := by
  unfold completed
  split
  · rw [Fields.get?_append, hv]; rfl
  · split
    · next h =>
      have hne : "expression" ≠ key := fun e => hkey e.symm h.1
      rw [Fields.get?_set, if_neg hne, hv]
    · exact hv

/-- What a completed node holds it held before, or it is one of the values that were added. -/
theorem get?_of_completed (hv : Fields.get? key (completed type fields) = some v) :
    Fields.get? key fields = some v ∨ v = .null ∨ v = .bool false := by
  unfold completed at hv
  split at hv
  · rw [Fields.get?_append] at hv
    cases hw : Fields.get? key fields with
    | some w =>
      rw [hw] at hv
      exact .inl hv
    | none =>
      rw [hw] at hv
      change (if "argument" = key then some Json.null else none) = some v at hv
      split at hv
      · exact .inr (.inl (Option.some.inj hv).symm)
      · cases hv
  · split at hv
    · rw [Fields.get?_set] at hv
      split at hv
      · exact .inr (.inr (Option.some.inj hv).symm)
      · exact .inl hv
    · exact .inl hv

theorem get?_prepared_eq : Fields.get? key (prepared type fields) =
    (Fields.get? key (completed type fields)).map (readyField type key) :=
  Fields.get?_mapWithKey (fun k v => readyField type k v) key _

theorem get?_prepared (hkey : key = "expression" → type ∉ functionTypes) (hv : Fields.get? key fields = some v) :
    Fields.get? key (prepared type fields) = some (readyField type key v) := by
  rw [get?_prepared_eq, get?_completed hkey hv]; rfl

/-- A field of a node on its way: prepared, rewritten and framed. -/
theorem exists_made (hmade : Fields.names made = Fields.names (prepared type fields))
    (hout : Fields.names out = Fields.names made) (hkey : key = "expression" → type ∉ functionTypes)
    (hv : Fields.get? key fields = some v) :
    ∃ w o, Fields.get? key (prepared type fields) = some (readyField type key v) ∧
      Fields.get? key made = some w ∧ Fields.get? key out = some o := by
  have hp := get?_prepared hkey hv
  obtain ⟨w, hw⟩ := Fields.exists_get?_of_names hmade hp
  obtain ⟨o, ho⟩ := Fields.exists_get?_of_names hout hw
  exact ⟨w, o, hp, hw, ho⟩

end Node

/-! ## Plain values -/

theorem Rewriting.Frame.same_iff {type : String} {fields made : Fields Json} {v w : Json} :
    Frame code classes up type fields made .same v w ↔ w = v :=
  ⟨fun h => by cases h; rfl, by rintro rfl; exact .same w⟩

theorem isNode_of_mem_zip {vs ws : List Json} (h : (Json.arr vs).isInert = true) {p : Json × Json}
    (hp : p ∈ vs.zip ws) : p.1.isNode = false := by
  have := List.all_eq_true.1 h p.1 (List.of_mem_zip hp).1
  simpa using this

theorem eq_of_zip_eq {α : Type} : ∀ {vs ws : List α}, vs.length = ws.length → (∀ p ∈ vs.zip ws, p.2 = p.1) → ws = vs
  | [], [], _, _ => rfl
  | v :: vs, w :: ws, hlen, h => by
    have hw : w = v := h (v, w) (by simp)
    rw [hw, eq_of_zip_eq (Nat.succ.inj hlen) fun p hp => h p (by simp [hp])]

theorem type?_eq_none {v : Json} (h : v.isNode = false) : v.type? = none := by
  cases ht : v.type? with
  | none => rfl
  | some type => rw [Json.isNode_of_type? ht] at h; cases h

theorem declares_eq_nil {v : Json} (h : v.type? ≠ some "ClassDeclaration") : v.declares = [] := by
  cases v with
  | obj fields => exact if_neg h
  | _ => rfl

theorem writesAfter_eq_nil {v : Json} (h : v.isNode = false) : v.writesAfter = [] := by
  simp [Json.writesAfter, Json.isOneOf, type?_eq_none h]

/-- Values that are no nodes have no records around them. -/
theorem weave_inert {vs : List Json} (h : (Json.arr vs).isInert = true) : weave vs vs = vs := by
  have hall : ∀ v ∈ vs, v.isNode = false := fun v hv => by simpa using List.all_eq_true.1 h v hv
  clear h
  unfold weave
  induction vs with
  | nil => rfl
  | cons v vs ih =>
    have hv := hall v (by simp)
    have hd : v.declares = [] := declares_eq_nil (by rw [type?_eq_none hv]; simp)
    rw [List.zip_cons_cons, List.flatMap_cons, ih fun w hw => hall w (by simp [hw]), hd, writesAfter_eq_nil hv]
    rfl

theorem Rewrites.inert {v w : Json} (h : Rewrites code m classes up v w) (hv : v.isInert = true) : w = v := by
  cases h with
  | kept => rfl
  | value => rfl
  | items _ _ vs ws hlen _ hother =>
    rw [eq_of_zip_eq hlen fun p hp => hother p hp (isNode_of_mem_zip hv hp)]
  | statements _ _ ss ts hlen _ hother =>
    rw [eq_of_zip_eq hlen fun p hp => hother p hp (isNode_of_mem_zip hv hp), weave_inert hv]
  | node _ _ type name fields made out htype =>
    have hn : (Json.obj fields).isNode = true := Json.isNode_of_type? (j := .obj fields) htype
    simp [Json.isInert, hn] at hv

section Node

variable {type key : String} {fields made out : Fields Json} {name v : Json}
  (hmade : Fields.names made = Fields.names (prepared type fields)) (hout : Fields.names out = Fields.names made)
  (h : ∀ key v w, Fields.get? key (prepared type fields) = some v → Fields.get? key made = some w →
    Rewrites code (mode type fields key) (classesAt classes type key name) (some (.obj fields)) v w)
  (hframe : ∀ key w o, Fields.get? key made = some w → Fields.get? key out = some o →
    Frame code classes up type fields made (frameKind type key) w o)

include hmade hout h hframe

/-- A plain value in a field that is neither prepared nor framed is kept. -/
theorem scalar_out (hv : Fields.get? key fields = some v) (hinert : v.isInert = true)
    (hkey : key = "expression" → type ∉ functionTypes) (hready : readyField type key v = v)
    (hsame : frameKind type key = .same) : Fields.get? key out = some v := by
  obtain ⟨w, o, hp, hw, ho⟩ := exists_made hmade hout hkey hv
  rw [hready] at hp
  have hwv : w = v := (h key v w hp hw).inert hinert
  have how := hframe key w o hw ho
  rw [hsame, Frame.same_iff] at how
  rw [ho, how, hwv]

end Node

/-! ## Keys that are never framed -/

/-- The types and fields that have a frame of a kind. -/
theorem exists_of_frameKind {type key : String} {k : FrameKind} (h : frameKind type key = k) (hk : k ≠ .same) :
    ∃ g ∈ frameTable, type ∈ g.1 ∧ (key, k) ∈ g.2 := by
  rw [frameKind] at h
  cases hgroup : ofGroup type frameTable with
  | none =>
    rw [hgroup] at h
    exact absurd h.symm hk
  | some entries =>
    obtain ⟨g, hg, htype, rfl⟩ := ofGroup_mem_types hgroup
    rw [hgroup, Option.getD_some] at h
    cases hentry : Fields.get? key g.2 with
    | none =>
      rw [hentry] at h
      exact absurd h.symm hk
    | some k' =>
      rw [hentry, Option.getD_some] at h
      exact ⟨g, hg, htype, Fields.mem_of_get? (h ▸ hentry)⟩

theorem frameKind_result {type key : String} (h : frameKind type key = .result) :
    type = "ReturnStatement" ∧ key = "argument" := by
  obtain ⟨g, hg, htype, hkey⟩ := exists_of_frameKind h (by decide)
  have hall : ∀ g ∈ frameTable, ∀ e ∈ g.2, e.2 = .result → g.1 = ["ReturnStatement"] ∧ e.1 = "argument" := by decide
  obtain ⟨htypes, rfl⟩ := hall g hg _ hkey rfl
  rw [htypes] at htype
  exact ⟨List.mem_singleton.1 htype, rfl⟩

theorem frameKind_call {type key : String} (h : frameKind type key = .callee ∨ frameKind type key = .arguments) :
    type = "CallExpression" ∧ key ∈ ["callee", "arguments"] := by
  have hall : ∀ g ∈ frameTable, ∀ e ∈ g.2, e.2 = .callee ∨ e.2 = .arguments →
      g.1 = ["CallExpression"] ∧ e.1 ∈ ["callee", "arguments"] := by decide
  have hsome {k : FrameKind} (hk : frameKind type key = k) (hcall : k = .callee ∨ k = .arguments) :
      type = "CallExpression" ∧ key ∈ ["callee", "arguments"] := by
    obtain ⟨g, hg, htype, hentry⟩ := exists_of_frameKind hk (by rcases hcall with rfl | rfl <;> decide)
    obtain ⟨htypes, hkey⟩ := hall g hg _ hentry hcall
    rw [htypes] at htype
    exact ⟨List.mem_singleton.1 htype, hkey⟩
  exact h.elim (fun h => hsome h (.inl rfl)) fun h => hsome h (.inr rfl)

theorem frameKind_init {type key : String} (h : frameKind type key = .init) : type = "ForStatement" ∧ key = "init" := by
  obtain ⟨g, hg, htype, hkey⟩ := exists_of_frameKind h (by decide)
  have hall : ∀ g ∈ frameTable, ∀ e ∈ g.2, e.2 = .init → g.1 = ["ForStatement"] ∧ e.1 = "init" := by decide
  obtain ⟨htypes, rfl⟩ := hall g hg _ hkey rfl
  rw [htypes] at htype
  exact ⟨List.mem_singleton.1 htype, rfl⟩

/-- A key that no type frames. -/
theorem frameKind_eq_same {key : String} (h : ∀ g ∈ frameTable, Fields.get? key g.2 = none) (type : String) :
    frameKind type key = .same := by
  unfold frameKind
  cases hg : ofGroup type frameTable with
  | none => rfl
  | some entries =>
    obtain ⟨g, hmem, -, rfl⟩ := ofGroup_mem_types hg
    rw [Option.getD_some, h g hmem]
    rfl

theorem readyField_eq_self {type key : String} (h : key ∉ ["consequent", "alternate", "body"]) (v : Json) :
    readyField type key v = v := by
  simp only [List.mem_cons, List.not_mem_nil, or_false, not_or] at h
  simp [readyField, h]

/-- A key that holds no nodes in any type. -/
theorem scalar_slot {key : String}
    (h : ∀ g ∈ Grammar.table, ∀ slot, Fields.get? key g.2 = some slot → Json.isScalar slot = true)
    {type : String} {slots : List (String × Slot)} {slot : Slot} (hshape : Grammar.shape type = some slots)
    (hslot : Fields.get? key slots = some slot) : Json.isScalar slot = true := by
  obtain ⟨g, hmem, -, rfl⟩ := ofGroup_mem_types hshape
  exact h g hmem slot hslot

/-- Fields that hold plain values in every node and are never framed. -/
def plainKeys : List String := ["type", "name", "computed", "kind", "directive", "operator", "raw"]

theorem plainKeys_spec : ∀ key ∈ plainKeys, key ≠ "loc" ∧ key ≠ "range" ∧ key ≠ "expression" ∧
    key ∉ ["consequent", "alternate", "body"] ∧ (∀ g ∈ frameTable, Fields.get? key g.2 = none) ∧
    ∀ g ∈ Grammar.table, (Fields.get? key g.2).all Json.isScalar = true := by
  decide

/-- What holds of a rewritten node: its plain fields are those of the node. -/
theorem Rewrites.plain {v w : Json} (h : Rewrites code m classes up v w) (hm : m ≠ .statements) {key : String}
    (hkey : key ∈ plainKeys) {x : Json} (hx : v.get? key = some x) : w.get? key = some x := by
  cases h with
  | kept => exact hx
  | value => exact hx
  | items => cases hx
  | statements => exact absurd rfl hm
  | node _ _ type name fields made out htype hproper hname hmade h hout hframe =>
    obtain ⟨hloc, hrange, hexpr, hbody, hsame, hslots⟩ := plainKeys_spec key hkey
    have hinert : x.isInert = true := hproper.inert htype hx ⟨hloc, hrange⟩ fun slots slot hshape hslot =>
      scalar_slot (fun g hg s hs => by simpa [hs] using hslots g hg) hshape hslot
    exact scalar_out hmade hout h hframe hx hinert (fun e => absurd e hexpr) (readyField_eq_self hbody x)
      (frameKind_eq_same hsame type)

/-! ## Types -/

/-- Types whose fields are neither prepared nor framed. -/
def Unframed (type : String) : Prop := ofGroup type frameTable = none

instance (type : String) : Decidable (Unframed type) :=
  decidable_of_iff ((ofGroup type frameTable).isNone = true) Option.isNone_iff_eq_none

theorem Unframed.not_mem {type : String} (h : Unframed type) {types : List String}
    (htypes : ∀ t ∈ types, ¬ Unframed t) : type ∉ types := fun hmem => htypes type hmem h

theorem Unframed.prepared_eq {type : String} (h : Unframed type) (fields : Fields Json) :
    prepared type fields = fields := by
  have hreturn : type ≠ "ReturnStatement" := by rintro rfl; exact absurd h (by decide)
  have hif : type ≠ "IfStatement" := by rintro rfl; exact absurd h (by decide)
  have hloop : type ∉ "ForStatement" :: loopTypes := h.not_mem (by decide)
  have hfun : type ∉ functionTypes := h.not_mem (by decide)
  simp [prepared, completed, readyField, hreturn, hif, hloop, hfun]

theorem Unframed.frameKind_eq {type : String} (h : Unframed type) (key : String) : frameKind type key = .same := by
  rw [frameKind, h]; rfl

theorem names_prepared {type key : String} {fields : Fields Json} (h : key ∈ Fields.names (prepared type fields)) :
    key ∈ Fields.names fields ∨ key = "argument" ∨ key = "expression" := by
  rw [prepared, Fields.names_mapWithKey, completed] at h
  split at h
  · rw [Fields.names, List.map_append, List.mem_append] at h
    rcases h with h | h
    · exact .inl h
    · exact .inr (.inl (by simpa using h))
  · split at h
    · rw [Fields.names_set] at h
      split at h
      · exact .inl h
      · rcases List.mem_append.1 h with h | h
        · exact .inl h
        · exact .inr (.inr (by simpa using h))
    · exact .inl h

/-- The plain fields of a rewritten node are those of the node. -/
theorem Rewrites.get?_plain (key : String) {v w : Json} (h : Rewrites code m classes up v w) (hm : m ≠ .statements)
    (hkey : key ∈ plainKeys) : w.get? key = v.get? key := by
  cases hx : v.get? key with
  | some x => exact h.plain hm hkey hx
  | none =>
    cases h with
    | kept => exact hx
    | value => exact hx
    | items => rfl
    | statements => exact absurd rfl hm
    | node _ _ type name fields made out htype hproper hname hmade h hout hframe =>
      have hne : key ≠ "argument" ∧ key ≠ "expression" := by
        constructor <;> rintro rfl <;> exact absurd hkey (by decide)
      have hnot : key ∉ Fields.names out := by
        rw [hout, hmade]
        intro hmem
        rcases names_prepared hmem with hmem | rfl | rfl
        · exact Fields.get?_eq_none.1 hx hmem
        · exact hne.1 rfl
        · exact hne.2 rfl
      exact Fields.get?_eq_none.2 hnot

theorem Rewrites.type?_eq {v w : Json} (h : Rewrites code m classes up v w) : w.type? = v.type? := by
  cases h with
  | kept => rfl
  | value => rfl
  | items => rfl
  | statements => rfl
  | node _ _ type name fields made out htype hproper hname hmade h hout hframe =>
    have hn : Rewrites code .visited classes up (.obj fields) (.obj out) :=
      .node _ _ type name fields made out htype hproper hname hmade h hout hframe
    have ht := hn.get?_plain "type" (by decide) (by decide)
    change (Fields.get? "type" out).bind Json.string? = (Fields.get? "type" fields).bind Json.string?
    rw [show Fields.get? "type" out = Fields.get? "type" fields from ht]

theorem Rewrites.isNode_eq {v w : Json} (h : Rewrites code m classes up v w) : w.isNode = v.isNode := by
  have ht := h.type?_eq
  cases h with
  | kept => rfl
  | value => rfl
  | items => rfl
  | statements => rfl
  | node _ _ type name fields made out htype =>
    have hv : (Json.obj fields).type? = some type := htype
    rw [Json.isNode_of_type? hv, Json.isNode_of_type? (ht.trans hv)]

/-- What a node becomes is an object. -/
theorem Rewrites.obj {fields : Fields Json} {w : Json} (h : Rewrites code m classes up (.obj fields) w) :
    ∃ out, w = .obj out := by
  cases h <;> exact ⟨_, rfl⟩

/-! ## Names and targets -/

/-- The same names are bound by two patterns, lists of patterns, or members. -/
def SameNames (v w : Json) : Prop :=
  bindingNames w = bindingNames v ∧
    (v.isOneOf ["Property", "RestElement"] = true → memberBinding w = memberBinding v) ∧
    ∀ vs, v = .arr vs → ∃ ws, w = .arr ws ∧ ws.mapM bindingNames = vs.mapM bindingNames ∧
      ((∀ x ∈ vs, x.isOneOf ["Property", "RestElement"] = true) → ws.mapM memberBinding = vs.mapM memberBinding)

theorem SameNames.refl (v : Json) : SameNames v v :=
  ⟨rfl, fun _ => rfl, fun vs h => ⟨vs, h, rfl, fun _ => rfl⟩⟩

theorem mapM_eq_of_zip {α : Type} {f : Json → Except Fault α} : ∀ {vs ws : List Json}, vs.length = ws.length →
    (∀ p ∈ vs.zip ws, f p.2 = f p.1) → ws.mapM f = vs.mapM f
  | [], [], _, _ => rfl
  | v :: vs, w :: ws, hlen, h => by
    have hw : f w = f v := h (v, w) (by simp)
    have hrest := mapM_eq_of_zip (Nat.succ.inj hlen) fun p hp => h p (by simp [hp])
    rw [List.mapM_cons, List.mapM_cons, hw, hrest]

section Child

variable {type key : String} {fields made out : Fields Json} {name v : Json}

/-- A field of a node that is neither prepared nor framed. -/
theorem Unframed.exists_child (hun : Unframed type) (hmade : Fields.names made = Fields.names (prepared type fields))
    (hout : Fields.names out = Fields.names made)
    (hframe : ∀ key w o, Fields.get? key made = some w → Fields.get? key out = some o →
      Frame code classes up type fields made (frameKind type key) w o)
    (hv : Fields.get? key fields = some v) :
    ∃ w, Fields.get? key (prepared type fields) = some v ∧ Fields.get? key made = some w ∧
      Fields.get? key out = some w := by
  rw [← hun.prepared_eq fields] at hv
  obtain ⟨w, hw⟩ := Fields.exists_get?_of_names hmade hv
  obtain ⟨o, ho⟩ := Fields.exists_get?_of_names hout hw
  have how := hframe key w o hw ho
  rw [hun.frameKind_eq, Frame.same_iff] at how
  exact ⟨w, hv, hw, how ▸ ho⟩

end Child

theorem mode_ne_statements {type : String} {fields : Fields Json} (key : String)
    (h : type ∉ ["Program", "BlockStatement", "SwitchCase"]) : mode type fields key ≠ .statements := by
  simp only [List.mem_cons, List.not_mem_nil, or_false, not_or] at h
  unfold mode
  rw [if_neg (by simp [h])]
  split
  · split <;> decide
  · split <;> decide

theorem Rewrites.sameNames {v w : Json} (h : Rewrites code m classes up v w) (hm : m ≠ .statements) :
    SameNames v w := by
  induction h with
  | kept _ _ v => exact .refl v
  | value _ _ v => exact .refl v
  | statements => exact absurd rfl hm
  | items _ _ vs ws hlen _ hother ih =>
    refine ⟨rfl, by rintro ⟨⟩, fun us hus => ⟨ws, rfl, ?_, fun hmem => ?_⟩⟩
    · cases hus
      refine mapM_eq_of_zip hlen fun p hp => ?_
      cases hn : p.1.isNode with
      | true => exact (ih p hp hn (by decide)).1
      | false => rw [hother p hp hn]
    · cases hus
      refine mapM_eq_of_zip hlen fun p hp => ?_
      cases hn : p.1.isNode with
      | true => exact (ih p hp hn (by decide)).2.1 (hmem p.1 (List.of_mem_zip hp).1)
      | false => rw [hother p hp hn]
  | node classes up type name fields made out htype hproper hname hmade h hout hframe ih =>
    have hw : Rewrites code .visited classes up (.obj fields) (.obj out) :=
      .node _ _ type name fields made out htype hproper hname hmade h hout hframe
    have htype' : Fields.type? out = some type := hw.type?_eq.trans htype
    -- a field of a node that is neither a list of statements nor framed binds what it bound
    have child : Unframed type → type ∉ ["Program", "BlockStatement", "SwitchCase"] → ∀ key v,
        Fields.get? key fields = some v → ∃ w, Fields.get? key out = some w ∧ SameNames v w ∧
          Rewrites code (mode type fields key) (classesAt classes type key name) (some (.obj fields)) v w := by
      intro hun hlist key v hv
      obtain ⟨w, hp, hmw, how⟩ := hun.exists_child hmade hout hframe hv
      exact ⟨w, how, ih key v w hp hmw (mode_ne_statements key hlist), h key v w hp hmw⟩
    have hbind : bindingNames (.obj out) = bindingNames (.obj fields) := by
      by_cases hb : type ∈ bindingTypes
      · have hun : Unframed type := by
          simp only [bindingTypes, List.mem_cons, List.not_mem_nil, or_false] at hb
          rcases hb with rfl | rfl | rfl | rfl | rfl <;> decide
        have hlist : type ∉ ["Program", "BlockStatement", "SwitchCase"] := by
          simp only [bindingTypes, List.mem_cons, List.not_mem_nil, or_false] at hb
          rcases hb with rfl | rfl | rfl | rfl | rfl <;> decide
        have child := child hun hlist
        simp only [bindingTypes, List.mem_cons, List.not_mem_nil, or_false] at hb
        rcases hb with rfl | rfl | rfl | rfl | rfl
        · obtain ⟨s, hs⟩ := Json.fits_text (hproper.fits "name" htype rfl rfl)
          have hs' : Fields.get? "name" out = some (.str s) :=
            (hw.get?_plain "name" (by decide) (by decide)).trans hs
          rw [bindingNames_identifier htype hs, bindingNames_identifier htype' hs']
        · obtain ⟨l, _, hl, -, -⟩ := Json.fits_node (hproper.fits "left" htype rfl rfl)
          obtain ⟨w, hw, hsame, hrw⟩ := child _ _ hl
          obtain ⟨l', rfl⟩ := hrw.obj
          rw [bindingNames_default htype hl, bindingNames_default htype' hw, hsame.1]
        · obtain ⟨l, _, hl, -, -⟩ := Json.fits_node (hproper.fits "argument" htype rfl rfl)
          obtain ⟨w, hw, hsame, hrw⟩ := child _ _ hl
          obtain ⟨l', rfl⟩ := hrw.obj
          rw [bindingNames_rest htype hl, bindingNames_rest htype' hw, hsame.1]
        · obtain ⟨items, hi, -⟩ := Json.fits_gaps (hproper.fits "elements" htype rfl rfl)
          obtain ⟨w, hw, hsame, -⟩ := child _ _ hi
          obtain ⟨ws, rfl, hws, -⟩ := hsame.2.2 items rfl
          rw [bindingNames_array htype hi, bindingNames_array htype' hw, allBindingNames, allBindingNames, hws]
        · obtain ⟨items, hi, hall⟩ := Json.fits_list (hproper.fits "properties" htype rfl rfl)
          obtain ⟨w, hw, hsame, -⟩ := child _ _ hi
          obtain ⟨ws, rfl, -, hws⟩ := hsame.2.2 items rfl
          rw [bindingNames_object htype hi, bindingNames_object htype' hw, hws hall]
      · rw [bindingNames_other htype hb, bindingNames_other htype' hb]
    refine ⟨hbind, fun hmember => ?_, by rintro vs ⟨⟩⟩
    rw [Json.isOneOf_obj htype] at hmember
    by_cases hrest : type = "RestElement"
    · subst hrest
      rw [memberBinding_rest htype, memberBinding_rest htype', hbind]
    · have hprop : type = "Property" := by simpa [hrest] using hmember
      subst hprop
      obtain ⟨l, _, hl, -, -⟩ := Json.fits_node (hproper.fits "value" htype rfl rfl)
      obtain ⟨w, hw, hsame, hrw⟩ := child (by decide) (by decide) _ _ hl
      obtain ⟨l', rfl⟩ := hrw.obj
      rw [memberBinding_property htype hrest hl, memberBinding_property htype' hrest hw, hsame.1]

theorem Rewrites.bindingNames_eq {v w : Json} (h : Rewrites code m classes up v w) (hm : m ≠ .statements) :
    bindingNames w = bindingNames v := (h.sameNames hm).1

theorem Rewrites.rootOf_eq {v w : Json} (h : Rewrites code m classes up v w) (hm : m ≠ .statements) :
    rootOf w = rootOf v := by
  induction h with
  | kept => rfl
  | value => rfl
  | statements => exact absurd rfl hm
  | items => rfl
  | node classes up type name fields made out htype hproper hname hmade h hout hframe ih =>
    have hw : Rewrites code .visited classes up (.obj fields) (.obj out) :=
      .node _ _ type name fields made out htype hproper hname hmade h hout hframe
    have htype' : Fields.type? out = some type := hw.type?_eq.trans htype
    by_cases hmem : type = "MemberExpression"
    · subst hmem
      obtain ⟨l, _, hl, -, -⟩ := Json.fits_node (hproper.fits "object" htype rfl rfl)
      obtain ⟨w, hp, hmw, how⟩ := Unframed.exists_child (by decide) hmade hout hframe hl
      rw [rootOf_member htype hl, rootOf_member htype' how]
      exact ih "object" _ w hp hmw (mode_ne_statements _ (by decide))
    by_cases hthis : type = "ThisExpression"
    · subst hthis
      rw [rootOf_this htype, rootOf_this htype']
    by_cases hid : type = "Identifier"
    · subst hid
      obtain ⟨s, hs⟩ := Json.fits_text (hproper.fits "name" htype rfl rfl)
      have hs' : Fields.get? "name" out = some (.str s) :=
        (hw.get?_plain "name" (by decide) (by decide)).trans hs
      rw [rootOf_identifier htype hs, rootOf_identifier htype' hs']
    · have hother : type ∉ ["MemberExpression", "ThisExpression", "Identifier"] := by simp [hmem, hthis, hid]
      rw [rootOf_other htype hother, rootOf_other htype' hother]

/-- What a rewritten target shows is what the target shows. -/
theorem Rewrites.targetsOf_eq {v w : Json} (h : Rewrites code m classes up v w) (hm : m ≠ .statements) :
    targetsOf w = targetsOf v := by
  have hroot := h.rootOf_eq hm
  have hbind := h.bindingNames_eq hm
  have hname := h.get?_plain "name" hm (by decide)
  have ht := h.type?_eq
  cases h with
  | kept => rfl
  | value => rfl
  | statements => exact absurd rfl hm
  | items => rfl
  | node _ _ type name fields made out htype =>
    have htype' : Fields.type? out = some type := ht.trans htype
    have hrequire : (layer (Json.obj out)).require "name" = (layer (Json.obj fields)).require "name" := by
      simp only [layer_json_obj, Layer.require]
      rw [show Fields.get? "name" out = Fields.get? "name" fields from hname]
    rw [targetsOf_obj htype, targetsOf_obj htype', hroot, hbind, hrequire]

/-- The same targets are written by two expressions, or by two lists of them. -/
def SameTargets (v w : Json) : Prop :=
  writtenTargets w = writtenTargets v ∧
    ∀ vs, v = .arr vs → ∃ ws, w = .arr ws ∧ ws.mapM writtenTargets = vs.mapM writtenTargets

theorem Rewrites.sameTargets {v w : Json} (h : Rewrites code m classes up v w) (hm : m ≠ .statements) :
    SameTargets v w := by
  induction h with
  | kept _ _ v => exact ⟨rfl, fun vs h => ⟨vs, h, rfl⟩⟩
  | value _ _ v => exact ⟨rfl, fun vs h => ⟨vs, h, rfl⟩⟩
  | statements => exact absurd rfl hm
  | items _ _ vs ws hlen _ hother ih =>
    refine ⟨rfl, fun us hus => ⟨ws, rfl, ?_⟩⟩
    cases hus
    refine mapM_eq_of_zip hlen fun p hp => ?_
    cases hn : p.1.isNode with
    | true => exact (ih p hp hn (by decide)).1
    | false => rw [hother p hp hn]
  | node classes up type name fields made out htype hproper hname hmade h hout hframe ih =>
    have hw : Rewrites code .visited classes up (.obj fields) (.obj out) :=
      .node _ _ type name fields made out htype hproper hname hmade h hout hframe
    have htype' : Fields.type? out = some type := hw.type?_eq.trans htype
    refine ⟨?_, fun vs hvs => nomatch hvs⟩
    by_cases hassign : type = "AssignmentExpression"
    · subst hassign
      obtain ⟨l, _, hl, -, -⟩ := Json.fits_node (hproper.fits "left" htype rfl rfl)
      obtain ⟨w, hp, hmw, how⟩ := Unframed.exists_child (by decide) hmade hout hframe hl
      rw [writtenTargets_assignment htype hl, writtenTargets_assignment htype' how]
      exact (h "left" _ w hp hmw).targetsOf_eq (mode_ne_statements _ (by decide))
    by_cases hupdate : type = "UpdateExpression"
    · subst hupdate
      obtain ⟨l, _, hl, -, -⟩ := Json.fits_node (hproper.fits "argument" htype rfl rfl)
      obtain ⟨w, hp, hmw, how⟩ := Unframed.exists_child (by decide) hmade hout hframe hl
      rw [writtenTargets_update htype hl, writtenTargets_update htype' how]
      exact (h "argument" _ w hp hmw).targetsOf_eq (mode_ne_statements _ (by decide))
    by_cases hseq : type = "SequenceExpression"
    · subst hseq
      obtain ⟨items, hi, -⟩ := Json.fits_list (hproper.fits "expressions" htype rfl rfl)
      obtain ⟨w, hp, hmw, how⟩ := Unframed.exists_child (by decide) hmade hout hframe hi
      obtain ⟨ws, rfl, hws⟩ := (ih "expressions" _ w hp hmw (mode_ne_statements _ (by decide))).2 items rfl
      rw [writtenTargets_sequence htype hi, writtenTargets_sequence htype' how, hws]
    · have hother : type ∉ ["AssignmentExpression", "UpdateExpression", "SequenceExpression"] := by
        simp [hassign, hupdate, hseq]
      rw [writtenTargets_other htype hother, writtenTargets_other htype' hother]

theorem Rewrites.writtenTargets_eq {v w : Json} (h : Rewrites code m classes up v w) (hm : m ≠ .statements) :
    writtenTargets w = writtenTargets v := (h.sameTargets hm).1

/-! ## Declarations, callees and left sides -/

/-- A declarator keeps the pattern it binds. -/
theorem Rewrites.declarator_id {fields out : Fields Json} (htype : Fields.type? fields = some "VariableDeclarator")
    (h : Rewrites code .visited classes up (.obj fields) (.obj out)) :
    Fields.get? "id" out = Fields.get? "id" fields := by
  cases h with
  | value => rfl
  | node _ _ type name _ made _ htype' hproper hname hmade h hout hframe =>
    cases htype.symm.trans htype'
    obtain ⟨v, _, hv, -, -⟩ := Json.fits_node (hproper.fits "id" htype rfl rfl)
    obtain ⟨w, hp, hmw, how⟩ := Unframed.exists_child (by decide) hmade hout hframe hv
    have hkept := h "id" _ w hp hmw
    rw [show mode "VariableDeclarator" fields "id" = .kept by
      simp [mode, visitedFields, ofGroup, visitTable, functionTypes, classTypes, loopTypes]] at hkept
    cases hkept
    rw [hv, how]

/-- A rewritten declaration declares the same names. -/
theorem Rewrites.declaredNames_eq {fields : Fields Json} {w : Json}
    (htype : Fields.type? fields = some "VariableDeclaration")
    (h : Rewrites code .visited classes up (.obj fields) w) :
    Visit.declaredNames w = Visit.declaredNames (.obj fields) := by
  cases h with
  | value => rfl
  | node _ _ type name _ made out htype' hproper hname hmade h hout hframe =>
    cases htype.symm.trans htype'
    obtain ⟨ds, hds, hall⟩ := Json.fits_list (hproper.fits "declarations" htype rfl rfl)
    obtain ⟨w, hp, hmw, how⟩ := Unframed.exists_child (by decide) hmade hout hframe hds
    have hvisited := h "declarations" _ w hp hmw
    rw [show mode "VariableDeclaration" fields "declarations" = .visited by
      simp [mode, visitedFields, ofGroup, visitTable, functionTypes, classTypes, loopTypes]] at hvisited
    cases hvisited with
    | value _ _ _ _ hlist => exact absurd rfl (hlist ds)
    | items _ _ _ ws hlen hitems _ =>
      simp only [Visit.declaredNames, layer_json_obj, Layer.require_of_get? hds, Layer.require_of_get? how,
        ok_bind, layer_json_arr, Layer.elements_arr]
      congr 1
      refine mapM_eq_of_zip hlen fun p hp => ?_
      obtain ⟨dfields, dtype, hd, hdtype, hmem⟩ := Json.isOneOf_iff.1 (hall p.1 (List.of_mem_zip hp).1)
      have hdecl : dtype = "VariableDeclarator" := by simpa using hmem
      subst hdecl
      have hrw := hitems p hp (hd ▸ Json.isNode_of_type? (j := .obj dfields) hdtype)
      rw [hd] at hrw
      obtain ⟨dout, hdout⟩ := hrw.obj
      rw [hdout] at hrw
      have hid := hrw.declarator_id hdtype
      simp only [hd, hdout, layer_json_obj, Layer.require, hid]

section Child

variable {type key : String} {fields : Fields Json} {v w : Json}

/-- A field of a rewritten node that is neither prepared nor framed. -/
theorem Rewrites.child (h : Rewrites code .visited classes up (.obj fields) w)
    (htype : Fields.type? fields = some type) (hun : Unframed type) (hv : Fields.get? key fields = some v) :
    ∃ out x name, w = .obj out ∧ Fields.get? key out = some x ∧
      Rewrites code (mode type fields key) (classesAt classes type key name) (some (.obj fields)) v x := by
  cases h with
  | value _ _ _ hnode => rw [Json.isNode_of_type? (j := .obj fields) htype] at hnode; cases hnode
  | node _ _ type' name _ made out htype' hproper hname hmade h hout hframe =>
    cases htype.symm.trans htype'
    obtain ⟨x, hp, hmx, hox⟩ := hun.exists_child hmade hout hframe hv
    exact ⟨out, x, name, rfl, hox, h key v x hp hmx⟩

end Child

theorem require_eq {fields out : Fields Json} {key : String} (h : Fields.get? key out = Fields.get? key fields) :
    (layer (Json.obj out)).require key = (layer (Json.obj fields)).require key := by
  simp only [layer_json_obj, Layer.require, h]

theorem optional_eq {fields out : Fields Json} {key : String} (h : Fields.get? key out = Fields.get? key fields) :
    (layer (Json.obj out)).optional key = (layer (Json.obj fields)).optional key := by
  simp only [layer_json_obj, Layer.optional, h]

theorem flag_eq {fields out : Fields Json} {key : String} (h : Fields.get? key out = Fields.get? key fields) :
    (layer (Json.obj out)).flag key = (layer (Json.obj fields)).flag key := by
  rw [Layer.flag, Layer.flag, optional_eq h]

/-- The string in a field that may be missing. -/
theorem string?_of_optional {fields : Fields Json} {key : String} {o : Option Json}
    (h : (layer (Json.obj fields)).optional key = .ok o) : o.bind Json.string? = (Json.field key (.obj fields)).string? := by
  simp only [layer_json_obj, Layer.optional, Except.ok.injEq] at h
  rw [Json.field, Json.get?, ← h]
  cases Fields.get? key fields with
  | none => rfl
  | some v => cases v <;> rfl

/-- What a callee is that the pass takes for one of the console's. -/
theorem exists_of_isConsole {callee : Fields Json} {type : String} (hproper : (Json.obj callee).Proper)
    (htype : Fields.type? callee = some type) (h : Visit.isConsole (.obj callee) = .ok true) :
    type = "MemberExpression" ∧ (Json.field "computed" (.obj callee)).truthy = false ∧ ∃ object property,
      Fields.get? "object" callee = some (.obj object) ∧ Fields.type? object = some "Identifier" ∧
      Fields.get? "name" object = some (.str "console") ∧ Fields.get? "property" callee = some (.obj property) ∧
      (Json.field "name" (.obj property)).string?.any Visit.printMethods.contains = true := by
  rw [Visit.isConsole, Json.hasType_json htype, ok_bind] at h
  obtain ⟨computed, hcomputed, h⟩ := bind_eq_ok.1 h
  have hcond : (!(type == "MemberExpression") || computed) = false := by
    cases hc : !(type == "MemberExpression") || computed with
    | false => rfl
    | true => rw [hc, if_pos rfl] at h; cases h
  obtain ⟨hmember, rfl⟩ : type = "MemberExpression" ∧ computed = false := by simpa using hcond
  subst hmember
  obtain ⟨object, -, hobject, -, -⟩ := Json.fits_node (hproper.fits "object" htype rfl rfl)
  obtain ⟨property, -, hproperty, -, -⟩ := Json.fits_node (hproper.fits "property" htype rfl rfl)
  rw [hcond, if_neg (by decide), layer_json_obj, Layer.require_of_get? hobject, ok_bind] at h
  obtain ⟨otype, hotype, h⟩ := bind_eq_ok.1 h
  have hotype := string?_of_optional hotype
  split at h
  · cases h
  · next hid =>
    obtain ⟨oname, honame, h⟩ := bind_eq_ok.1 h
    split at h
    · cases h
    · next hconsole =>
      rw [Layer.require_of_get? hproperty, ok_bind] at h
      obtain ⟨method, hmethod, h⟩ := bind_eq_ok.1 h
      have hmethod := string?_of_optional hmethod
      refine ⟨rfl, Json.flag_eq_ok hcomputed, object, property, hobject, ?_, ?_, hproperty, ?_⟩
      · simp only [bne_iff_ne, ne_eq, Decidable.not_not, hotype, Json.field, Json.get?] at hid
        rw [Fields.type?]
        cases hv : Fields.get? "type" object with
        | none => rw [hv] at hid; cases hid
        | some v => rw [hv] at hid; exact hid
      · rw [layer_json_obj, Layer.require_obj] at honame
        cases oname with
        | str s =>
          rw [honame]
          simpa [Json.string?] using hconsole
        | _ => exact absurd (by simp [Json.string?]) hconsole
      · rw [← hmethod]
        cases hm : method.bind Json.string? with
        | none => rw [hm] at h; cases h
        | some m => rw [hm] at h; exact Except.ok.inj h

/-- Rewriting neither makes nor unmakes a callee that prints. -/
theorem Rewrites.isConsole_eq {fields : Fields Json} {w : Json} (hproper : (Json.obj fields).Proper)
    (hnode : (Json.obj fields).isNode = true) (h : Rewrites code .visited classes up (.obj fields) w) :
    Visit.isConsole w = Visit.isConsole (.obj fields) := by
  obtain ⟨type, htype⟩ := hproper.exists_type hnode
  obtain ⟨out, rfl⟩ := h.obj
  have htype' : Fields.type? out = some type := h.type?_eq.trans htype
  by_cases hmem : type = "MemberExpression"
  · subst hmem
    obtain ⟨o, otype, ho, hotype, -⟩ := Json.fits_node (hproper.fits "object" htype rfl rfl)
    obtain ⟨p, ptype, hp, hptype, -⟩ := Json.fits_node (hproper.fits "property" htype rfl rfl)
    obtain ⟨_, o', _, heq, ho', hro⟩ := h.child htype (by decide) ho
    cases heq
    obtain ⟨_, p', _, heq, hp', hrp⟩ := h.child htype (by decide) hp
    cases heq
    obtain ⟨ofields, rfl⟩ := hro.obj
    obtain ⟨pfields, rfl⟩ := hrp.obj
    have hom : mode "MemberExpression" fields "object" ≠ .statements := mode_ne_statements _ (by decide)
    have hpm : mode "MemberExpression" fields "property" ≠ .statements := mode_ne_statements _ (by decide)
    rw [Visit.isConsole, Visit.isConsole, Json.hasType_json htype, Json.hasType_json htype',
      flag_eq (h.get?_plain "computed" (by decide) (by decide)), layer_json_obj, layer_json_obj,
      Layer.require_of_get? ho, Layer.require_of_get? ho', Layer.require_of_get? hp, Layer.require_of_get? hp']
    simp only [ok_bind]
    rw [optional_eq (hro.get?_plain "type" hom (by decide)),
      require_eq (hro.get?_plain "name" hom (by decide)),
      optional_eq (hrp.get?_plain "name" hpm (by decide))]
  · rw [Visit.isConsole, Visit.isConsole, Json.hasType_json htype, Json.hasType_json htype',
      flag_eq (h.get?_plain "computed" (by decide) (by decide)), beq_false_of_ne hmem]
    rfl

/-- The name that a left side gives is kept. -/
theorem Rewrites.leftName_eq {fields : Fields Json} {w : Json} (hproper : (Json.obj fields).Proper)
    (hnode : (Json.obj fields).isNode = true) (h : Rewrites code .visited classes up (.obj fields) w) :
    leftName w = leftName (.obj fields) := by
  obtain ⟨type, htype⟩ := hproper.exists_type hnode
  obtain ⟨out, rfl⟩ := h.obj
  have htype' : Fields.type? out = some type := h.type?_eq.trans htype
  by_cases hmem : type = "MemberExpression"
  · subst hmem
    obtain ⟨p, ptype, hp, hptype, -⟩ := Json.fits_node (hproper.fits "property" htype rfl rfl)
    obtain ⟨_, p', _, heq, hp', hrp⟩ := h.child htype (by decide) hp
    cases heq
    obtain ⟨pfields, rfl⟩ := hrp.obj
    have hpm : mode "MemberExpression" fields "property" ≠ .statements := mode_ne_statements _ (by decide)
    rw [leftName_member htype hp, leftName_member htype' hp',
      flag_eq (h.get?_plain "computed" (by decide) (by decide)),
      require_eq (hrp.get?_plain "name" hpm (by decide))]
  · rw [leftName_other htype hmem, leftName_other htype' hmem,
      require_eq (h.get?_plain "name" (by decide) (by decide))]

/-! ## Rewritten nodes -/

/-- How a node is rewritten: its fields are prepared, rewritten and framed. -/
structure RewrittenNode (code : Option String) (classes : List Json) (up : Option Json) (kind : String) (name : Json)
    (fields made out : Fields Json) : Prop where
  type : Fields.type? fields = some kind
  proper : (Json.obj fields).Proper
  named : kind ∈ classTypes → className classes up kind fields = .ok name
  names_made : Fields.names made = Fields.names (prepared kind fields)
  names_out : Fields.names out = Fields.names made
  field : ∀ key v w, Fields.get? key (prepared kind fields) = some v → Fields.get? key made = some w →
    Rewrites code (mode kind fields key) (classesAt classes kind key name) (some (.obj fields)) v w
  frame : ∀ key w o, Fields.get? key made = some w → Fields.get? key out = some o →
    Frame code classes up kind fields made (frameKind kind key) w o

namespace RewrittenNode

variable {code : Option String} {classes : List Json} {up : Option Json} {type : String} {name : Json}
  {fields made out : Fields Json} (hnode : RewrittenNode code classes up type name fields made out)

include hnode

theorem names_completed : Fields.names out = Fields.names (completed type fields) := by
  rw [hnode.names_out, hnode.names_made, prepared, Fields.names_mapWithKey]

/-- What becomes of a field of the completed node. -/
theorem exists_made {key : String} {v o : Json} (hv : Fields.get? key (completed type fields) = some v)
    (ho : Fields.get? key out = some o) : ∃ w, Fields.get? key (prepared type fields) = some (readyField type key v) ∧
      Fields.get? key made = some w ∧ Frame code classes up type fields made (frameKind type key) w o := by
  have hprepared : Fields.get? key (prepared type fields) = some (readyField type key v) := by
    rw [get?_prepared_eq, hv, Option.map_some]
  obtain ⟨w, hw⟩ := Fields.exists_get?_of_names hnode.names_made hprepared
  exact ⟨w, hprepared, hw, hnode.frame key w o hw ho⟩

theorem rewrites : Rewrites code .visited classes up (.obj fields) (.obj out) :=
  .node _ _ type name fields made out hnode.type hnode.proper hnode.named hnode.names_made hnode.field hnode.names_out
    hnode.frame

/-- The plain fields of a node are kept. -/
theorem get?_plain (key : String) (hkey : key ∈ plainKeys) : Fields.get? key out = Fields.get? key fields :=
  hnode.rewrites.get?_plain _ (by decide) hkey

theorem type?_out : Fields.type? out = some type := hnode.rewrites.type?_eq.trans hnode.type

end RewrittenNode

/-- A node that is rewritten. -/
theorem Rewrites.exists_node {fields : Fields Json} {type : String} {w : Json} (htype : Fields.type? fields = some type)
    (h : Rewrites code .visited classes up (.obj fields) w) :
    ∃ name made out, w = .obj out ∧ RewrittenNode code classes up type name fields made out := by
  cases h with
  | value _ _ _ hnode => rw [Json.isNode_of_type? (j := .obj fields) htype] at hnode; cases hnode
  | node _ _ type' name _ made out htype' hproper hname hmade h hout hframe =>
    cases htype.symm.trans htype'
    exact ⟨name, made, out, rfl, htype, hproper, hname, hmade, hout, h, hframe⟩

end ScriptTrace
