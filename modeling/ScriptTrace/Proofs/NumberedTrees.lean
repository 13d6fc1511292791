import ScriptTrace.Proofs.BareTrees
import ScriptTrace.Proofs.NumberedText
import ScriptTrace.Proofs.ReadingFaults

/-!
# Trees that depend on the numbers of loop variables

A numbered value is one value for each number of loop variables that were introduced before. Only texts under a few
keys tell them apart, and these only by the names of loop variables in them. Whatever reads such values comes to the
same end for all of them: to the same fault, or to answers that are numbered in their turn.

* `Json.Numbered`, `Tree.Numbered` : numbered values; a tree of this kind has no shared parts;
* `Agreed` : the same fault, or answers that belong together;
* `Layer.Numbered` : layers of numbered values, for any kind of values that `Readable` tells to be read in layers;
* `Layer.Numbered.require`, `Layer.Numbered.elements`, ... : how layers are read.
-/

namespace ScriptTrace

/-- The keys of texts that may hold names of loop variables. -/
def isTextKey (key : String) : Bool := ["name", "value", "raw"].contains key

/-- The fields with their values for one number. -/
def Fields.at {α : Type} (fields : Fields (Nat → α)) (c : Nat) : Fields α := Fields.mapValues (· c) fields

/-- Values of JSON, one for each number of earlier loop variables; `loose` tells whether a text may differ. -/
inductive Json.Numbered (m : Nat) : Bool → (Nat → Json) → Prop
  | null (loose : Bool) : Numbered m loose fun _ => .null
  | bool (loose b : Bool) : Numbered m loose fun _ => .bool b
  | int (loose : Bool) (n : Int) : Numbered m loose fun _ => .int n
  | float (loose : Bool) (x : Binary64) : Numbered m loose fun _ => .float x
  | str (loose : Bool) (s : String) : Numbered m loose fun _ => .str s
  | text {s : Nat → String} (h : NumberedText m s) : Numbered m true fun c => .str (s c)
  | arr (loose : Bool) (items : List (Nat → Json)) (h : ∀ x ∈ items, Numbered m false x) :
      Numbered m loose fun c => .arr (items.map (· c))
  | obj (loose : Bool) (fields : Fields (Nat → Json)) (h : ∀ f ∈ fields, Numbered m (isTextKey f.1) f.2) :
      Numbered m loose fun c => .obj (fields.at c)

/-- Trees without shared parts, one for each number of earlier loop variables. -/
inductive Tree.Numbered (m : Nat) : Bool → (Nat → Tree) → Prop
  | null (loose : Bool) : Numbered m loose fun _ => .null
  | bool (loose b : Bool) : Numbered m loose fun _ => .bool b
  | int (loose : Bool) (n : Int) : Numbered m loose fun _ => .int n
  | float (loose : Bool) (x : Binary64) : Numbered m loose fun _ => .float x
  | str (loose : Bool) (s : String) : Numbered m loose fun _ => .str s
  | text {s : Nat → String} (h : NumberedText m s) : Numbered m true fun c => .str (s c)
  | arr (loose : Bool) (items : List (Nat → Tree)) (h : ∀ x ∈ items, Numbered m false x) :
      Numbered m loose fun c => .arr (items.map (· c))
  | obj (loose seen : Bool) (fields : Fields (Nat → Tree)) (h : ∀ f ∈ fields, Numbered m (isTextKey f.1) f.2) :
      Numbered m loose fun c => .obj seen (fields.at c)

/-- Layers of numbered values. -/
inductive Layer.Numbered {α : Type} (m : Nat) (Q : Bool → (Nat → α) → Prop) : Bool → (Nat → Layer α) → Prop
  | null (loose : Bool) : Numbered m Q loose fun _ => .null
  | bool (loose b : Bool) : Numbered m Q loose fun _ => .bool b
  | int (loose : Bool) (n : Int) : Numbered m Q loose fun _ => .int n
  | float (loose : Bool) (x : Binary64) : Numbered m Q loose fun _ => .float x
  | str (loose : Bool) (s : String) : Numbered m Q loose fun _ => .str s
  | text {s : Nat → String} (h : NumberedText m s) : Numbered m Q true fun c => .str (s c)
  | arr (loose : Bool) (items : List (Nat → α)) (h : ∀ x ∈ items, Q false x) :
      Numbered m Q loose fun c => .arr (items.map (· c))
  | obj (loose : Bool) (fields : Fields (Nat → α)) (h : ∀ f ∈ fields, Q (isTextKey f.1) f.2) :
      Numbered m Q loose fun c => .obj (fields.at c)

/-! ## Numbered values -/

@[simp] theorem Fields.get?_at {α : Type} (key : String) (fields : Fields (Nat → α)) (c : Nat) :
    Fields.get? key (fields.at c) = (Fields.get? key fields).map (· c) := Fields.get?_mapValues _ key fields

@[simp] theorem Fields.names_at {α : Type} (fields : Fields (Nat → α)) (c : Nat) :
    Fields.names (fields.at c) = Fields.names fields := Fields.names_mapValues _ fields

theorem Fields.set_at {α : Type} (key : String) (v : Nat → α) (fields : Fields (Nat → α)) (c : Nat) :
    Fields.set key (v c) (fields.at c) = (Fields.set key v fields).at c := by
  rw [Fields.at, Fields.at, Fields.mapValues_set]

theorem Fields.mapValues_at {α β : Type} (f : Nat → α → β) (fields : Fields (Nat → α)) (c : Nat) :
    Fields.mapValues (f c) (fields.at c) = Fields.at (Fields.mapValues (fun v c => f c (v c)) fields) c := by
  rw [Fields.at, Fields.at, Fields.mapValues_mapValues, Fields.mapValues_mapValues]
  rfl

theorem map_at {α β : Type} (f : Nat → α → β) (items : List (Nat → α)) (c : Nat) :
    (items.map (· c)).map (f c) = (items.map fun v c => f c (v c)).map (· c) := by
  rw [List.map_map, List.map_map]
  rfl

namespace Json.Numbered

variable {m : Nat} {loose : Bool} {j : Nat → Json}

theorem mono {m' : Nat} (h : Numbered m loose j) (hle : m ≤ m') : Numbered m' loose j := by
  induction h with
  | null => exact .null _
  | bool => exact .bool _ _
  | int => exact .int _ _
  | float => exact .float _ _
  | str => exact .str _ _
  | text h => exact .text (h.mono hle)
  | arr loose items h ih => exact .arr loose items ih
  | obj loose fields h ih => exact .obj loose fields ih

theorem weaken (h : Numbered m loose j) : Numbered m true j := by
  cases h with
  | null => exact .null _
  | bool => exact .bool _ _
  | int => exact .int _ _
  | float => exact .float _ _
  | str => exact .str _ _
  | text h => exact .text h
  | arr _ items h => exact .arr _ items h
  | obj _ fields h => exact .obj _ fields h

/-- A value that is the same for all numbers. -/
theorem const (m : Nat) (loose : Bool) (j : Json) : Numbered m loose fun _ => j := by
  induction j using Json.ind generalizing loose with
  | scalar j hj =>
    cases j with
    | null => exact .null _
    | bool b => exact .bool _ b
    | int n => exact .int _ n
    | float x => exact .float _ x
    | str s => exact .str _ s
    | _ => cases hj
  | arr items ih =>
    have h := Numbered.arr loose (items.map fun x (_ : Nat) => x) (List.forall_mem_map.2 fun x hx => ih x hx false)
    simpa only [List.map_map, Function.comp_def, List.map_id'] using h
  | obj fields ih =>
    have h := Numbered.obj loose (Fields.mapValues (fun x (_ : Nat) => x) fields) (List.forall_mem_map.2 fun f hf => ih f hf _)
    have hid : Fields.mapValues (fun x => x) fields = fields := Fields.mapValues_id fields
    simpa only [Fields.at, Fields.mapValues_mapValues, Function.comp_def, hid] using h

theorem of_arr (items : List (Nat → Json)) (h : ∀ x ∈ items, Numbered m false x) (hj : ∀ c, j c = .arr (items.map (· c))) :
    Numbered m loose j := funext hj ▸ .arr loose items h

theorem of_obj (fields : Fields (Nat → Json)) (h : ∀ f ∈ fields, Numbered m (isTextKey f.1) f.2)
    (hj : ∀ c, j c = .obj (fields.at c)) : Numbered m loose j := funext hj ▸ .obj loose fields h

/-- Whether a value counts as true is the same for all numbers. -/
theorem truthy (h : Numbered m loose j) (c : Nat) : (j c).truthy = (j 0).truthy := by
  cases h with
  | text h =>
    rw [Json.truthy, Json.truthy, Bool.eq_iff_iff, bne_iff_ne, bne_iff_ne]
    exact not_congr (h.eq_iff (by decide) c)
  | arr _ items => simp [Json.truthy]
  | obj _ fields => simp [Json.truthy, Fields.at, Fields.mapValues]
  | _ => rfl

/-- A string that can be no name of a loop variable is there for all numbers, or for none. -/
theorem eq_str (h : Numbered m loose j) {word : String} (hword : '_' ∉ word.toList) (c : Nat) : j c = .str word ↔ j 0 = .str word := by
  cases h with
  | text h =>
    rw [Json.str.injEq, Json.str.injEq]
    exact h.eq_iff hword c
  | arr => exact ⟨nofun, nofun⟩
  | obj => exact ⟨nofun, nofun⟩
  | _ => exact Iff.rfl

end Json.Numbered

namespace Tree.Numbered

variable {m : Nat} {loose : Bool} {t : Nat → Tree}

theorem mono {m' : Nat} (h : Numbered m loose t) (hle : m ≤ m') : Numbered m' loose t := by
  induction h with
  | null => exact .null _
  | bool => exact .bool _ _
  | int => exact .int _ _
  | float => exact .float _ _
  | str => exact .str _ _
  | text h => exact .text (h.mono hle)
  | arr loose items h ih => exact .arr loose items ih
  | obj loose seen fields h ih => exact .obj loose seen fields ih

theorem weaken (h : Numbered m loose t) : Numbered m true t := by
  cases h with
  | null => exact .null _
  | bool => exact .bool _ _
  | int => exact .int _ _
  | float => exact .float _ _
  | str => exact .str _ _
  | text h => exact .text h
  | arr _ items h => exact .arr _ items h
  | obj _ seen fields h => exact .obj _ seen fields h

theorem of_arr (items : List (Nat → Tree)) (h : ∀ x ∈ items, Numbered m false x) (ht : ∀ c, t c = .arr (items.map (· c))) :
    Numbered m loose t := funext ht ▸ .arr loose items h

theorem of_obj (seen : Bool) (fields : Fields (Nat → Tree)) (h : ∀ f ∈ fields, Numbered m (isTextKey f.1) f.2)
    (ht : ∀ c, t c = .obj seen (fields.at c)) : Numbered m loose t := funext ht ▸ .obj loose seen fields h

theorem isShared (h : Numbered m loose t) (c : Nat) : (t c).isShared = false := by
  cases h <;> rfl

theorem mark (h : Numbered m loose t) : Numbered m loose fun c => (t c).mark := by
  cases h with
  | null => exact .null _
  | bool => exact .bool _ _
  | int => exact .int _ _
  | float => exact .float _ _
  | str => exact .str _ _
  | text h => exact .text h
  | arr _ items h => exact .arr _ items h
  | obj _ seen fields h => exact .obj _ true fields h

/-- A numbered tree stands for the same values of JSON whatever parts are shared elsewhere. -/
theorem toJson (h : Numbered m loose t) (parts : Nat → Nat → Json) : Json.Numbered m loose fun c => (t c).toJson (parts c) := by
  induction h with
  | null => exact .null _
  | bool => exact .bool _ _
  | int => exact .int _ _
  | float => exact .float _ _
  | str => exact .str _ _
  | text h => exact .text h
  | arr loose items h ih =>
    refine .of_arr (items.map fun t c => (t c).toJson (parts c)) (List.forall_mem_map.2 ih) fun c => ?_
    rw [Tree.toJson, toItems_eq_map]
    exact congrArg Json.arr (map_at (fun c => Tree.toJson (parts c)) items c)
  | obj loose seen fields h ih =>
    refine .of_obj (Fields.mapValues (fun t c => (t c).toJson (parts c)) fields) (List.forall_mem_map.2 ih) fun c => ?_
    rw [Tree.toJson, toFields_eq_mapValues]
    exact congrArg Json.obj (Fields.mapValues_at (fun c => Tree.toJson (parts c)) fields c)

/-- The tree of a numbered value. -/
theorem ofJsonWith (seen : Bool) {j : Nat → Json} (h : Json.Numbered m loose j) :
    Numbered m loose fun c => Tree.ofJsonWith seen (j c) := by
  induction h with
  | null => exact .null _
  | bool => exact .bool _ _
  | int => exact .int _ _
  | float => exact .float _ _
  | str => exact .str _ _
  | text h => exact .text h
  | arr loose items h ih =>
    refine .of_arr (items.map fun t c => Tree.ofJsonWith seen (t c)) (List.forall_mem_map.2 ih) fun c => ?_
    rw [Tree.ofJsonWith, ofItems_eq_map]
    exact congrArg Tree.arr (map_at (fun _ => Tree.ofJsonWith seen) items c)
  | obj loose fields h ih =>
    refine .of_obj seen (Fields.mapValues (fun t c => Tree.ofJsonWith seen (t c)) fields) (List.forall_mem_map.2 ih) fun c => ?_
    rw [Tree.ofJsonWith, ofFields_eq_mapValues]
    exact congrArg (Tree.obj seen) (Fields.mapValues_at (fun _ => Tree.ofJsonWith seen) fields c)

theorem ofProbe {j : Nat → Json} (h : Json.Numbered m loose j) : Numbered m loose fun c => Tree.ofProbe (j c) := ofJsonWith true h

theorem expand (h : Numbered m loose t) (parts : Nat → List Tree) : Json.Numbered m loose fun c => (t c).expand (parts c) :=
  h.toJson fun c => partJson (parts c) (parts c).length

end Tree.Numbered

/-! ## Answers that belong together -/

/-- The same value for all numbers. -/
def Constant {α : Type} (a : Nat → α) : Prop := ∃ v, a = fun _ => v

/-- The same fault for all numbers, or answers of which `Q` tells more. -/
inductive Agreed {α : Type} (Q : (Nat → α) → Prop) : (Nat → Except Fault α) → Prop
  | fault (e : Fault) : Agreed Q fun _ => .error e
  | answer {a : Nat → α} (h : Q a) : Agreed Q fun c => .ok (a c)

/-- Nothing for all numbers, or values of which `Q` tells more. -/
inductive NumberedOption {α : Type} (Q : (Nat → α) → Prop) : (Nat → Option α) → Prop
  | none : NumberedOption Q fun _ => .none
  | some {a : Nat → α} (h : Q a) : NumberedOption Q fun c => .some (a c)

section Answers

variable {α β : Type} {Q R : (Nat → α) → Prop} {P : (Nat → β) → Prop}

theorem NumberedOption.toList {o : Nat → Option α} (h : NumberedOption Q o) : NumberedList Q fun c => (o c).toList := by
  cases h with
  | none => exact .nil
  | some h => exact .cons h .nil

theorem NumberedOption.mono {o : Nat → Option α} (h : NumberedOption R o) (himp : ∀ a, R a → Q a) : NumberedOption Q o := by
  cases h with
  | none => exact .none
  | some h => exact .some (himp _ h)

theorem constant (v : α) : Constant fun (_ : Nat) => v := ⟨v, rfl⟩

theorem Tree.Numbered.seen {m : Nat} {loose : Bool} {t : Nat → Tree} (h : Tree.Numbered m loose t) : Constant fun c => (t c).seen := by
  cases h <;> exact constant _

theorem Constant.eq {a : Nat → α} (h : Constant a) : ∃ v, ∀ c, a c = v := h.imp fun _ h => congrFun h

theorem Agreed.mono {r : Nat → Except Fault α} (h : Agreed R r) (himp : ∀ a, R a → Q a) : Agreed Q r := by
  cases h with
  | fault e => exact .fault e
  | answer h => exact .answer (himp _ h)

theorem Agreed.bind {r : Nat → Except Fault α} {f : Nat → α → Except Fault β} (h : Agreed R r)
    (hf : ∀ a, R a → Agreed P fun c => f c (a c)) : Agreed P fun c => r c >>= f c := by
  cases h with
  | fault e => exact .fault e
  | answer h => exact hf _ h

theorem Agreed.map {r : Nat → Except Fault α} {f : Nat → α → β} (h : Agreed R r) (hf : ∀ a, R a → P fun c => f c (a c)) :
    Agreed P fun c => f c <$> r c := by
  cases h with
  | fault e => exact .fault e
  | answer h => exact .answer (hf _ h)

theorem Agreed.pure {a : Nat → α} (h : Q a) : Agreed Q fun c => Pure.pure (a c) := .answer h

theorem Agreed.of_eq {r s : Nat → Except Fault α} (h : Agreed Q r) (heq : ∀ c, s c = r c) : Agreed Q s := funext heq ▸ h

/-- What does not depend on the number. -/
theorem Agreed.same (r : Except Fault α) : Agreed Constant fun _ => r := by
  cases r with
  | ok a => exact .answer (constant a)
  | error e => exact .fault e

theorem Agreed.throw (e : Fault) : Agreed Q fun _ => MonadExcept.throw e := .fault e

theorem Agreed.ite {p : Prop} [Decidable p] {r s : Nat → Except Fault α} (hr : p → Agreed Q r) (hs : ¬ p → Agreed Q s) :
    Agreed Q fun c => if p then r c else s c := by
  split
  · exact hr ‹_›
  · exact hs ‹_›

/-- An answer that is the same for all numbers. -/
theorem Agreed.known {r : Nat → Except Fault α} {f : Nat → α → Except Fault β} (h : Agreed Constant r)
    (hf : ∀ v, Agreed P fun c => f c v) : Agreed P fun c => r c >>= f c :=
  h.bind fun _ ha => by
    obtain ⟨v, rfl⟩ := ha
    exact hf v

/-- A question that has the same answer for all numbers. -/
theorem Agreed.test {b : Nat → Except Fault Bool} {r s : Nat → Except Fault α} (h : Agreed Constant b) (hr : Agreed Q r)
    (hs : Agreed Q s) : Agreed Q fun c => b c >>= fun yes => if yes = true then r c else s c :=
  h.known fun _ => .ite (fun _ => hr) fun _ => hs

theorem Agreed.mapM {f : Nat → α → Except Fault β} {xs : Nat → List α} (h : NumberedList R xs)
    (hf : ∀ x, R x → Agreed P fun c => f c (x c)) : Agreed (NumberedList P) fun c => (xs c).mapM (f c) := by
  obtain ⟨ys, rfl, hys⟩ := h
  induction ys with
  | nil => exact .pure .nil
  | cons y ys ih =>
    obtain ⟨hy, hys⟩ := List.forall_mem_cons.1 hys
    simp only [List.map_cons, List.mapM_cons]
    exact (hf y hy).bind fun b hb => (ih hys).bind fun bs hbs => .pure (.cons hb hbs)

end Answers

/-! ## Reading layers -/

/-- Values that are read in layers, and what is known of them: it is known of the values below as well, and of the
plain strings that a loop may meet. -/
structure Readable {α : Type} [Layered α] (m : Nat) (Q : Bool → (Nat → α) → Prop) : Prop where
  layer : ∀ {loose x}, Q loose x → Layer.Numbered m Q loose fun c => layer (x c)
  string : ∀ s, Q false fun _ => Layered.ofString s

namespace Layer.Numbered

variable {α : Type} {m : Nat} {Q : Bool → (Nat → α) → Prop} {loose : Bool} {l : Nat → Layer α}

theorem of_arr (items : List (Nat → α)) (h : ∀ x ∈ items, Q false x) (hl : ∀ c, l c = .arr (items.map (· c))) :
    Numbered m Q loose l := funext hl ▸ .arr loose items h

theorem of_obj (fields : Fields (Nat → α)) (h : ∀ f ∈ fields, Q (isTextKey f.1) f.2) (hl : ∀ c, l c = .obj (fields.at c)) :
    Numbered m Q loose l := funext hl ▸ .obj loose fields h

theorem truthy (h : Numbered m Q loose l) : Constant fun c => (l c).truthy := by
  cases h with
  | @text s h =>
    refine ⟨s 0 != "", funext fun c => ?_⟩
    rw [Layer.truthy, Bool.eq_iff_iff, bne_iff_ne, bne_iff_ne]
    exact not_congr (h.eq_iff (by decide) c)
  | arr _ items => exact ⟨_, funext fun c => congrArg (!·) (List.isEmpty_map)⟩
  | obj _ fields => exact ⟨_, funext fun c => congrArg (!·) (List.isEmpty_map)⟩
  | _ => exact constant _

theorem isNull (h : Numbered m Q loose l) : Constant fun c => (l c).isNull := by
  cases h <;> exact constant _

theorem isNode (h : Numbered m Q loose l) : Constant fun c => (l c).isNode := by
  cases h with
  | obj _ fields =>
    refine ⟨(Fields.get? "type" fields).isSome, funext fun c => ?_⟩
    rw [Layer.isNode, Fields.get?_at, Option.isSome_map]
  | _ => exact constant _

/-- A word that is no text which may differ. -/
theorem isString (h : Numbered m Q false l) (s : String) : Constant fun c => (l c).isString s := by
  cases h <;> exact constant _

theorem require (h : Numbered m Q loose l) (key : String) : Agreed (Q (isTextKey key)) fun c => (l c).require key := by
  cases h with
  | obj _ fields h =>
    simp only [Layer.require, Fields.get?_at]
    cases hget : Fields.get? key fields with
    | none => exact .fault _
    | some x => exact .answer (h _ (Fields.mem_of_get? hget))
  | _ => exact .fault _

variable [Layered α] (hQ : Readable m Q)

include hQ

theorem optional (h : Numbered m Q loose l) (key : String) :
    Agreed (NumberedOption (Q (isTextKey key))) fun c => (l c).optional key := by
  cases h with
  | obj _ fields h =>
    simp only [Layer.optional, Fields.get?_at]
    cases hget : Fields.get? key fields with
    | none => exact .answer .none
    | some x =>
      have hx := h _ (Fields.mem_of_get? hget)
      obtain ⟨b, hb⟩ := (hQ.layer hx).isNull
      have hb (c : Nat) : (layer (x c)).isNull = b := congrFun hb c
      simp only [Option.map_some, Option.filter, hb]
      cases b with
      | true => exact .answer .none
      | false => exact .answer (.some hx)
  | _ => exact .fault _

theorem flag (h : Numbered m Q loose l) (key : String) : Agreed Constant fun c => (l c).flag key := by
  refine (h.optional hQ key).bind fun o ho => ?_
  cases ho with
  | none => exact .pure (constant _)
  | some hx =>
    obtain ⟨b, hb⟩ := (hQ.layer hx).truthy
    exact .pure ⟨b, hb⟩

theorem hasType (h : Numbered m Q loose l) (type : String) : Agreed Constant fun c => (l c).hasType type :=
  (h.require "type").bind fun _ hx => .pure ((hQ.layer hx).isString type)

theorem hasTypeIn (h : Numbered m Q loose l) (types : List String) : Agreed Constant fun c => (l c).hasTypeIn types := by
  refine (h.require "type").bind fun x hx => .pure ?_
  have hstring (type : String) : ∃ b, ∀ c, (layer (x c)).isString type = b :=
    ((hQ.layer hx).isString type).imp fun _ h => congrFun h
  choose b hb using hstring
  exact ⟨types.any b, funext fun c => by simp only [hb]⟩

/-- The values a loop runs over, where no text is met that may differ. -/
theorem elements (h : Numbered m Q false l) : Agreed (NumberedList (Q false)) fun c => (l c).elements := by
  have hstrings (xs : List String) : NumberedList (Q false) fun _ => xs.map Layered.ofString :=
    ⟨xs.map fun s _ => Layered.ofString s, by simp only [List.map_map]; rfl, List.forall_mem_map.2 fun s _ => hQ.string s⟩
  cases h with
  | arr _ items h => exact .answer ⟨items, rfl, h⟩
  | str _ s =>
    have h := hstrings (s.toList.map String.singleton)
    simp only [List.map_map] at h
    exact .answer h
  | obj _ fields =>
    have h := hstrings (Fields.names fields)
    simp only [Fields.names, List.map_map] at h
    simp only [Layer.elements, Fields.at, Fields.mapValues, List.map_map]
    exact .answer h
  | _ => exact .fault _

theorem elementsOf (h : Numbered m Q loose l) (key : String) (hkey : isTextKey key = false) :
    Agreed (NumberedList (Q false)) fun c => (l c).elementsOf key := by
  refine (h.optional hQ key).bind fun o ho => ?_
  rw [hkey] at ho
  cases ho with
  | none => exact .answer .nil
  | some hx =>
    obtain ⟨b, hb⟩ := (hQ.layer hx).truthy
    have hb (c : Nat) : _ = b := congrFun hb c
    simp only [hb]
    exact .ite (fun _ => (hQ.layer hx).elements hQ) fun _ => .answer .nil

end Layer.Numbered

/-! ## Layers of values and of trees -/

theorem Json.readable (m : Nat) : Readable m (Json.Numbered m) := by
  refine ⟨fun h => ?_, .str false⟩
  cases h with
  | null => exact .null _
  | bool => exact .bool _ _
  | int => exact .int _ _
  | float => exact .float _ _
  | str => exact .str _ _
  | text h => exact .text h
  | arr _ items h => exact .arr _ items h
  | obj _ fields h => exact .obj _ fields h

theorem Tree.readable (m : Nat) : Readable m (Tree.Numbered m) := by
  refine ⟨fun h => ?_, .str false⟩
  cases h with
  | null => exact .null _
  | bool => exact .bool _ _
  | int => exact .int _ _
  | float => exact .float _ _
  | str => exact .str _ _
  | text h => exact .text h
  | arr _ items h => exact .arr _ items h
  | obj _ _ fields h => exact .obj _ fields h

section Fields

variable {m : Nat} {loose : Bool}

theorem Json.Numbered.layer {j : Nat → Json} (h : Json.Numbered m loose j) :
    Layer.Numbered m (Json.Numbered m) loose fun c => ScriptTrace.layer (j c) := (Json.readable m).layer h

theorem Json.Numbered.get? {j : Nat → Json} (h : Json.Numbered m loose j) (key : String) :
    NumberedOption (Json.Numbered m (isTextKey key)) fun c => (j c).get? key := by
  cases h with
  | obj _ fields h =>
    simp only [Json.get?, Fields.get?_at]
    cases hget : Fields.get? key fields with
    | none => exact .none
    | some x => exact .some (h _ (Fields.mem_of_get? hget))
  | _ => exact .none

theorem Json.Numbered.field {j : Nat → Json} (h : Json.Numbered m loose j) (key : String) :
    Json.Numbered m (isTextKey key) fun c => (j c).field key := by
  have hget := h.get? key
  unfold Json.field
  generalize hnames : (fun c => (j c).get? key) = o at hget
  have hnames (c : Nat) : (j c).get? key = o c := congrFun hnames c
  simp only [hnames]
  cases hget with
  | none => exact .null _
  | some h => exact h

theorem Tree.Numbered.layer {t : Nat → Tree} (h : Tree.Numbered m loose t) :
    Layer.Numbered m (Tree.Numbered m) loose fun c => ScriptTrace.layer (t c) := (Tree.readable m).layer h

theorem Tree.Numbered.field {t : Nat → Tree} (h : Tree.Numbered m loose t) (key : String) :
    Tree.Numbered m (isTextKey key) fun c => (t c).field key := by
  cases h with
  | obj _ _ fields h =>
    simp only [Tree.field, Fields.get?_at]
    cases hget : Fields.get? key fields with
    | none => exact .null _
    | some x => exact h _ (Fields.mem_of_get? hget)
  | _ => exact .null _

theorem Tree.Numbered.setField {t v : Nat → Tree} (h : Tree.Numbered m loose t) {key : String}
    (hv : Tree.Numbered m (isTextKey key) v) : Tree.Numbered m loose fun c => (t c).setField key (v c) := by
  cases h with
  | obj _ seen fields h =>
    refine .of_obj seen (Fields.set key v fields) (fun f hf => ?_) fun c => ?_
    · obtain rfl | hmem := Fields.mem_set hf
      · exact hv
      · exact h f hmem
    · rw [Tree.setField, Fields.set_at]
  | null => exact .null _
  | bool => exact .bool _ _
  | int => exact .int _ _
  | float => exact .float _ _
  | str => exact .str _ _
  | text h => exact .text h
  | arr _ items h => exact .arr _ items h

end Fields

end ScriptTrace
