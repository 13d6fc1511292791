import ScriptTrace.Proofs.NodeReading
import ScriptTrace.Proofs.Ensures

/-!
# Trees without shared parts

The tree of a program that is read from plain JSON has no shared parts, and neither has what a pass
makes of it. Such a tree stands for a JSON value by itself.

* `Tree.bare` : the plain JSON of a tree without shared parts;
* `Tree.ofJson_arr`, `Tree.ofJson_obj` : a tree made from JSON, one layer at a time;
* `Step.ensures_inField`, `Step.ensures_eachItem` : steps on parts of such trees.
-/

namespace ScriptTrace

namespace Tree

/-- The plain JSON of a tree that has no shared parts. -/
def bare (t : Tree) : Json := t.expand []

theorem expand_nil (t : Tree) : t.expand [] = t.bare := rfl

theorem toItems_eq_map (parts : Nat → Json) : ∀ items : List Tree, toItems parts items = items.map (toJson parts)
  | [] => rfl
  | _ :: rest => by rw [toItems, toItems_eq_map parts rest, List.map_cons]

theorem toFields_eq_mapValues (parts : Nat → Json) :
    ∀ fields : Fields Tree, toFields parts fields = Fields.mapValues (toJson parts) fields
  | [] => rfl
  | (_, _) :: rest => by rw [toFields, toFields_eq_mapValues parts rest, Fields.mapValues_cons]

theorem ofItems_eq_map (seen : Bool) (items : List Json) : ofItems seen items = items.map (ofJsonWith seen) := by
  induction items with
  | nil => rfl
  | cons x xs ih => rw [ofItems, ih, List.map_cons]

theorem ofFields_eq_mapValues (seen : Bool) :
    ∀ fields : Fields Json, ofFields seen fields = Fields.mapValues (ofJsonWith seen) fields
  | [] => rfl
  | (_, _) :: rest => by rw [ofFields, ofFields_eq_mapValues seen rest, Fields.mapValues_cons]

/-! ## Bare trees -/

@[simp] theorem bare_ofJson (j : Json) : (ofJson j).bare = j := expand_ofJson [] j

@[simp] theorem bare_ofProbe (j : Json) : (ofProbe j).bare = j := toJson_ofJsonWith _ _ j

@[simp] theorem bare_null : null.bare = .null := rfl

@[simp] theorem bare_bool (b : Bool) : (bool b).bare = .bool b := rfl

@[simp] theorem bare_str (s : String) : (str s).bare = .str s := rfl

@[simp] theorem bare_arr (items : List Tree) : (arr items).bare = .arr (items.map bare) :=
  congrArg Json.arr (toItems_eq_map _ items)

@[simp] theorem bare_obj (seen : Bool) (fields : Fields Tree) :
    (obj seen fields).bare = .obj (Fields.mapValues bare fields) :=
  congrArg Json.obj (toFields_eq_mapValues _ fields)

/-- A tree that stands for an object is an object. -/
theorem of_bare_obj {t : Tree} {fields : Fields Json} (h : t.bare = .obj fields) :
    ∃ seen fs, t = obj seen fs ∧ Fields.mapValues bare fs = fields := by
  cases t with
  | obj seen fs => exact ⟨seen, fs, rfl, by simpa using h⟩
  | arr items => simp at h
  | _ => cases h

/-- A tree that stands for a list is a list. -/
theorem of_bare_arr {t : Tree} {items : List Json} (h : t.bare = .arr items) :
    ∃ ts, t = arr ts ∧ ts.map bare = items := by
  cases t with
  | arr ts => exact ⟨ts, rfl, by simpa using h⟩
  | obj seen fs => simp at h
  | _ => cases h

/-! ## Trees made from JSON -/

@[simp] theorem ofJson_arr (items : List Json) : ofJson (.arr items) = arr (items.map ofJson) :=
  congrArg arr (ofItems_eq_map false items)

@[simp] theorem ofJson_obj (fields : Fields Json) :
    ofJson (.obj fields) = obj false (Fields.mapValues ofJson fields) :=
  congrArg (obj false) (ofFields_eq_mapValues false fields)

@[simp] theorem seen_ofJson (j : Json) : (ofJson j).seen = false := by
  cases j <;> rfl

@[simp] theorem isNode_ofJson (j : Json) : (ofJson j).isNode = j.isNode := by
  cases j with
  | obj fields =>
    rw [ofJson_obj]
    change (Fields.get? "type" (Fields.mapValues ofJson fields)).isSome = (Fields.get? "type" fields).isSome
    rw [Fields.get?_mapValues, Option.isSome_map]
  | _ => rfl

/-- Whether a tree is a place that holds a shared part. -/
def isShared : Tree → Bool
  | shared _ => true
  | _ => false

@[simp] theorem isShared_ofJson (j : Json) : (ofJson j).isShared = false := by
  cases j <;> rfl

@[simp] theorem isShared_obj (seen : Bool) (fields : Fields Tree) : (obj seen fields).isShared = false := rfl

@[simp] theorem isShared_arr (items : List Tree) : (arr items).isShared = false := rfl

@[simp] theorem setField_obj (seen : Bool) (fields : Fields Tree) (key : String) (t : Tree) :
    (obj seen fields).setField key t = obj seen (Fields.set key t fields) := rfl

end Tree

@[simp] theorem layer_obj (seen : Bool) (fields : Fields Tree) : layer (Tree.obj seen fields) = .obj fields := rfl

@[simp] theorem layer_arr (items : List Tree) : layer (Tree.arr items) = .arr items := rfl

theorem isNode_bare (t : Tree) : t.bare.isNode = t.isNode := by
  cases t with
  | obj seen fs =>
    rw [Tree.bare_obj]
    change (Fields.get? "type" (Fields.mapValues Tree.bare fs)).isSome = (Fields.get? "type" fs).isSome
    rw [Fields.get?_mapValues, Option.isSome_map]
  | _ => rfl

/-! ## Steps on parts -/

namespace Step

variable {α : Type} {Q : α → Pass → Prop} {s : Pass}

/-- A part that is not shared is worked on where it stands. -/
theorem within_of_not_shared (act : Step α) (s : Pass) {t : Tree} (ht : t.isShared = false) :
    within act t s =
      (((act.effect { s with focus := t }).1, (act.effect { s with focus := t }).2.focus),
        { (act.effect { s with focus := t }).2 with focus := s.focus }) := by
  cases t with
  | shared k => cases ht
  | _ => rfl

theorem ensures_inField {key : String} {act : Step α} {seen : Bool} {fs : Fields Tree}
    (hfocus : s.focus = .obj seen fs)
    (h : ∀ t, Fields.get? key fs = some t → t.isShared = false ∧
      Ensures act { s with focus := t } fun a s' => Q a { s' with focus := .obj seen (Fields.set key s'.focus fs) }) :
    Ensures (inField key act) s Q := by
  rw [inField, ensures_ofEffect]
  intro a s'' he
  simp only [hfocus] at he
  cases ht : (layer (Tree.obj seen fs)).require key with
  | error e => rw [ht] at he; cases he
  | ok t =>
    obtain ⟨hns, hact⟩ := h t (by simpa using ht)
    rw [ht] at he
    simp only [within_of_not_shared act s hns, hfocus, Tree.setField_obj] at he
    rcases hrun : act.effect { s with focus := t } with ⟨r, s'⟩
    rw [hrun] at he
    obtain ⟨rfl, rfl⟩ := Prod.mk.inj he
    exact hact a s' hrun

/-- Steps on items made from JSON, each of which may queue probes and take numbers. -/
theorem ensures_withinEach {act : Step α} {push : Queue → Json → Queue} {R : Json → Tree → Prop} {A : Json → α → Prop} :
    ∀ (items : List Json) (s : Pass),
      (∀ v ∈ items, ∀ queue counter,
        Ensures act { s with focus := .ofJson v, queue := queue, counter := counter } fun a s' =>
          ∃ t c, s' = { s with focus := t, queue := push queue v, counter := c } ∧ R v t ∧ A v a) →
      ∀ answers ts s', withinEach act (items.map .ofJson) s = ((.ok answers, ts), s') →
        ∃ c, s' = { s with queue := items.foldl push s.queue, counter := c } ∧
          List.Forall₂ R items ts ∧ List.Forall₂ A items answers
  | [], s, _, answers, ts, s', he => by
    simp only [List.map_nil, withinEach, Prod.mk.injEq, Except.ok.injEq] at he
    obtain ⟨⟨rfl, rfl⟩, rfl⟩ := he
    exact ⟨s.counter, rfl, .nil, .nil⟩
  | v :: items, s, hact, answers, ts, s', he => by
    simp only [List.map_cons, withinEach, within_of_not_shared act s (Tree.isShared_ofJson v)] at he
    rcases hrun : act.effect { s with focus := .ofJson v } with ⟨r, s₁⟩
    rw [hrun] at he
    cases r with
    | error e => cases he
    | ok a =>
      obtain ⟨t, c, rfl, hR, hA⟩ := hact v (by simp) s.queue s.counter a s₁ hrun
      simp only at he
      rcases hrest : withinEach act (items.map .ofJson) { s with queue := push s.queue v, counter := c } with ⟨⟨r, us⟩, s₂⟩
      rw [hrest] at he
      cases r with
      | error e => cases he
      | ok rest =>
        obtain ⟨c', rfl, hRs, hAs⟩ := ensures_withinEach items { s with queue := push s.queue v, counter := c }
          (fun w hw queue counter => hact w (List.mem_cons_of_mem v hw) queue counter) rest us s₂ hrest
        simp only [Except.map, Prod.mk.injEq, Except.ok.injEq] at he
        obtain ⟨⟨rfl, rfl⟩, rfl⟩ := he
        exact ⟨c', rfl, .cons hR hRs, .cons hA hAs⟩

theorem ensures_eachItem (act : Step α) (push : Queue → Json → Queue) {R : Json → Tree → Prop} {A : Json → α → Prop}
    {items : List Json} (hfocus : s.focus = .arr (items.map .ofJson))
    (hact : ∀ v ∈ items, ∀ queue counter,
      Ensures act { s with focus := .ofJson v, queue := queue, counter := counter } fun a s' =>
        ∃ t c, s' = { s with focus := t, queue := push queue v, counter := c } ∧ R v t ∧ A v a) :
    Ensures (eachItem act) s fun answers s' => ∃ ts c,
      s' = { s with focus := .arr ts, queue := items.foldl push s.queue, counter := c } ∧
        List.Forall₂ R items ts ∧ List.Forall₂ A items answers := by
  rw [eachItem, ensures_ofEffect]
  intro answers s'' he
  simp only [hfocus, layer_arr, Layer.elements_arr] at he
  rcases hrun : withinEach act (items.map .ofJson) s with ⟨⟨r, ts⟩, s'⟩
  rw [hrun] at he
  have hr : r = .ok answers := by
    simp only at he
    split at he <;> exact (Prod.mk.inj he).1
  subst hr
  obtain ⟨c, rfl, hR, hA⟩ := ensures_withinEach items s hact answers ts s' hrun
  simp only [hfocus] at he
  exact ⟨ts, c, (Prod.mk.inj he).2.symm, hR, hA⟩

end Step

end ScriptTrace
