import ScriptTrace.Proofs.NumberedPrinting
import ScriptTrace.Proofs.Outcomes
import Mathlib.Algebra.GroupWithZero.Nat

/-!
# Passes that depend on the number of a loop variable

A pass over a program is the same however many loop variables were introduced before it, up to the names of its own. It is
followed here for all these numbers at once: the states are numbered, a step meets the same fault for all of them or
answers numbered values, and what a step may change of a state is said for each of them.

* `Pass.Numbered` : states that differ in the names of loop variables only;
* `Pass.Kept` : what no step changes, and how many loop variables a step may add to the focus;
* `Step.Looks` : a step that leaves the states as they are;
* `Step.Runs` : a step that keeps numbered states numbered, whether it ends with an answer or with a fault;
* `Step.Runs.inField`, `Step.Runs.eachItem`, `Step.Runs.setField`, ... : the steps from which the rules are made.
-/

namespace ScriptTrace

/-! ## States -/

/-- How many declarators of a loop variable a tree holds. -/
def Tree.declarators (x : String) (t : Tree) : Nat := t.bare.loopVariables.count x

/-- Probes that wait for their place: they are marked, and declare no loop variable. -/
structure Waiting (m : Nat) (t : Nat → Tree) : Prop where
  numbered : Tree.Numbered m false t
  seen (c : Nat) : (t c).seen = true
  silent (c : Nat) : (t c).bare.loopVariables = []

/-- States of a pass, one for each number of earlier loop variables, in which the pass itself has introduced `m`. -/
structure Pass.Numbered (m : Nat) (loose : Bool) (s : Nat → Pass) : Prop where
  focus : Tree.Numbered m loose fun c => (s c).focus
  before : NumberedList (Waiting m) fun c => (s c).queue.before
  after : NumberedList (Waiting m) fun c => (s c).queue.after
  allows : Constant fun c => (s c).queue.allowsAfter
  classes : NumberedList (Json.Numbered m true) fun c => (s c).classes
  code : Constant fun c => (s c).code
  counter (c : Nat) : (s c).counter = c + m

/-- What a step leaves of a state: all but the focus, the queue and the counter, and of the focus its type, its name and its
mark. The focus has new loop variables only among those that were introduced. -/
structure Pass.Kept (s s' : Pass) : Prop where
  parts : s'.parts = s.parts
  code : s'.code = s.code
  classes : s'.classes = s.classes
  allows : s'.queue.allowsAfter = s.queue.allowsAfter
  counter : s.counter ≤ s'.counter
  kin : Json.Kin s.focus.bare s'.focus.bare
  declarators (x : String) : s'.focus.declarators x ≤ s.focus.declarators x + (introduced s.counter s'.counter).count x
  seen : s.focus.seen = true → s'.focus.seen = true

theorem Waiting.mono {m m' : Nat} {t : Nat → Tree} (h : Waiting m t) (hle : m ≤ m') : Waiting m' t :=
  ⟨h.numbered.mono hle, h.seen, h.silent⟩

theorem Waiting.ofProbe {m : Nat} {j : Nat → Json} (h : Json.Numbered m false j) (hobj : ∀ c, ∃ fields, j c = .obj fields)
    (hsilent : ∀ c, (j c).loopVariables = []) : Waiting m fun c => .ofProbe (j c) where
  numbered := .ofProbe h
  seen c := by
    obtain ⟨fields, hj⟩ := hobj c
    rw [hj]
    rfl
  silent c := by rw [Tree.bare_ofProbe, hsilent]

theorem Pass.Kept.refl (s : Pass) : Kept s s := ⟨rfl, rfl, rfl, rfl, Nat.le_refl _, .refl _, fun _ => Nat.le_add_right _ _, id⟩

theorem Pass.Kept.trans {s s' s'' : Pass} (h : Kept s s') (h' : Kept s' s'') : Kept s s'' where
  parts := h'.parts.trans h.parts
  code := h'.code.trans h.code
  classes := h'.classes.trans h.classes
  allows := h'.allows.trans h.allows
  counter := Nat.le_trans h.counter h'.counter
  kin := h.kin.trans h'.kin
  declarators x := by
    have hfirst := h.declarators x
    have hsecond := h'.declarators x
    rw [← introduced_append h.counter h'.counter, List.count_append]
    omega
  seen := h'.seen ∘ h.seen

section Trees

variable {x : String} {key : String} {t v : Tree}

@[simp] theorem Tree.declarators_arr (items : List Tree) : (Tree.arr items).declarators x = (items.map (declarators x)).sum := by
  rw [declarators, bare_arr, Json.loopVariables_arr, List.flatMap_map, List.count_flatMap]
  rfl

theorem Tree.declarators_ofProbe {j : Json} (h : j.loopVariables = []) : (ofProbe j).declarators x = 0 := by
  rw [declarators, bare_ofProbe, h, List.count_nil]

theorem Tree.bare_setField_obj (seen : Bool) (fs : Fields Tree) :
    ((Tree.obj seen fs).setField key v).bare = .obj (Fields.set key v.bare (Fields.mapValues bare fs)) := by
  rw [setField_obj, bare_obj, Fields.mapValues_set]

theorem Tree.bare_field (t : Tree) (key : String) : (t.field key).bare = t.bare.field key := by
  cases t with
  | obj seen fs =>
    rw [bare_obj]
    change ((Fields.get? key fs).getD .null).bare = ((Fields.get? key (Fields.mapValues bare fs)).getD .null)
    rw [Fields.get?_mapValues]
    cases Fields.get? key fs <;> rfl
  | arr items =>
    rw [bare_arr]
    rfl
  | _ => rfl

theorem Tree.field_of_require (h : (layer t).require key = .ok v) : t.field key = v := by
  cases t with
  | obj seen fs =>
    rw [layer_obj, Layer.require] at h
    change (Fields.get? key fs).getD .null = v
    cases hget : Fields.get? key fs with
    | none =>
      rw [hget] at h
      cases h
    | some w =>
      rw [hget] at h
      cases h
      rfl
  | _ => cases h

theorem Tree.seen_setField (t : Tree) (key : String) (v : Tree) : (t.setField key v).seen = t.seen := by
  cases t <;> rfl

/-- To set a field leaves the others. -/
theorem Tree.field_setField {other : String} (h : key ≠ other) : (t.setField key v).field other = t.field other := by
  cases t with
  | obj seen fs =>
    rw [setField_obj]
    change (Fields.get? other (Fields.set key v fs)).getD .null = (Fields.get? other fs).getD .null
    rw [Fields.get?_set, if_neg h]
  | _ => rfl

/-- A field is set to a value with the same texts. -/
theorem Tree.kin_setField (h : key = "type" ∨ key = "name" → Json.Kin (t.field key).bare v.bare) : Json.Kin t.bare (t.setField key v).bare := by
  cases t with
  | obj seen fs =>
    rw [bare_setField_obj, bare_obj]
    refine .set fun hkey => ?_
    have hkin := h hkey
    rw [bare_field, bare_obj] at hkin
    exact hkin
  | _ => exact .refl _

theorem Tree.declarators_setField {b : Nat} (h : key = "type" ∨ key = "id" → Json.Kin (t.field key).bare v.bare)
    (hv : v.declarators x ≤ (t.field key).declarators x + b) : (t.setField key v).declarators x ≤ t.declarators x + b := by
  cases t with
  | obj seen fs =>
    rw [declarators, declarators, bare_field, bare_obj] at hv
    rw [bare_field, bare_obj] at h
    rw [declarators, declarators, bare_setField_obj, bare_obj]
    exact Json.count_loopVariables_set h hv
  | _ => exact Nat.le_add_right _ _

end Trees

namespace Pass.Numbered

variable {m m' : Nat} {loose loose' : Bool} {s : Nat → Pass}

theorem withFocus (h : Numbered m loose s) {t : Nat → Tree} (ht : Tree.Numbered m loose' t) :
    Numbered m loose' fun c => { s c with focus := t c } := ⟨ht, h.before, h.after, h.allows, h.classes, h.code, h.counter⟩

/-- What was numbered before the pass introduced more variables. -/
theorem withQueue (h : Numbered m' loose s) {q : Nat → Queue} (hle : m ≤ m') (hbefore : NumberedList (Waiting m) fun c => (q c).before)
    (hafter : NumberedList (Waiting m) fun c => (q c).after) (hallows : Constant fun c => (q c).allowsAfter) :
    Numbered m' loose fun c => { s c with queue := q c } where
  focus := h.focus
  before := hbefore.mono fun _ ht => ht.mono hle
  after := hafter.mono fun _ ht => ht.mono hle
  allows := hallows
  classes := h.classes
  code := h.code
  counter := h.counter

theorem emptyQueue (h : Numbered m loose s) (allows : Bool) : Numbered m loose fun c => { s c with queue := .empty allows } :=
  h.withQueue (Nat.le_refl m) .nil .nil (constant allows)

theorem withClasses (h : Numbered m' loose s) {classes : Nat → List Json} (hle : m ≤ m') (hc : NumberedList (Json.Numbered m true) classes) :
    Numbered m' loose fun c => { s c with classes := classes c } where
  focus := h.focus
  before := h.before
  after := h.after
  allows := h.allows
  classes := hc.mono fun _ hj => hj.mono hle
  code := h.code
  counter := h.counter

/-- One more loop variable is introduced. -/
theorem counted (h : Numbered m loose s) : Numbered (m + 1) loose fun c => { s c with counter := (s c).counter + 1 } where
  focus := h.focus.mono (Nat.le_succ m)
  before := h.before.mono fun _ ht => ht.mono (Nat.le_succ m)
  after := h.after.mono fun _ ht => ht.mono (Nat.le_succ m)
  allows := h.allows
  classes := h.classes.mono fun _ hj => hj.mono (Nat.le_succ m)
  code := h.code
  counter c := by rw [h.counter, Nat.add_assoc]

end Pass.Numbered

namespace Step

variable {α β : Type} {m m' : Nat} {loose : Bool} {s : Nat → Pass}

/-! ## Looking -/

/-- A step that leaves the states as they are, and comes to the same end for all of them. -/
def Looks (act : Nat → Step α) (s : Nat → Pass) (R : (Nat → α) → Prop) : Prop :=
  ∃ r, (∀ c, (act c).effect (s c) = (r c, s c)) ∧ Agreed R r

section Looks

variable {R : (Nat → α) → Prop} {P : (Nat → β) → Prop} {act : Nat → Step α} {f : Nat → α → Step β}

theorem Looks.bind (h : Looks act s R) (hf : ∀ a, R a → Looks (fun c => f c (a c)) s P) : Looks (fun c => act c >>= f c) s P := by
  obtain ⟨r, hr, hagreed⟩ := h
  cases hagreed with
  | fault e => exact ⟨fun _ => .error e, fun c => by rw [effect_bind, hr], .fault e⟩
  | answer ha =>
    obtain ⟨r', hr', hagreed⟩ := hf _ ha
    exact ⟨r', fun c => by rw [effect_bind, hr]; exact hr' c, hagreed⟩

theorem Looks.mono {P : (Nat → α) → Prop} (h : Looks act s R) (himp : ∀ a, R a → P a) : Looks act s P := by
  obtain ⟨r, hr, hagreed⟩ := h
  exact ⟨r, hr, hagreed.mono himp⟩

theorem effect_lift (r : Except Fault α) (s : Pass) : (liftM r : Step α).effect s = (r, s) := by
  cases r <;> rfl

theorem looks_lift {r : Nat → Except Fault α} (h : Agreed R r) : Looks (fun c => liftM (r c)) s R :=
  ⟨r, fun c => effect_lift (r c) (s c), h⟩

theorem looks_pure {a : Nat → α} (h : R a) : Looks (fun c => pure (a c)) s R := ⟨fun c => .ok (a c), fun _ => rfl, .answer h⟩

theorem looks_throw (e : Fault) : Looks (fun _ => throw e) s R := ⟨fun _ => .error e, fun _ => rfl, .fault e⟩

theorem looks_get {R : (Nat → Pass) → Prop} (h : R s) : Looks (fun _ => get) s R := ⟨fun c => .ok (s c), fun _ => rfl, .answer h⟩

theorem looks_focus {R : (Nat → Tree) → Prop} (h : R fun c => (s c).focus) : Looks (fun _ => focus) s R :=
  ⟨fun c => .ok (s c).focus, fun _ => rfl, .answer h⟩

theorem Looks.ite {p : Prop} [Decidable p] {act' : Nat → Step α} (hpos : p → Looks act s R) (hneg : ¬ p → Looks act' s R) :
    Looks (fun c => if p then act c else act' c) s R := by
  split
  · exact hpos ‹_›
  · exact hneg ‹_›

/-- An answer that is the same for all numbers. -/
theorem Looks.known (h : Looks act s Constant) (hf : ∀ v, Looks (fun c => f c v) s P) : Looks (fun c => act c >>= f c) s P :=
  h.bind fun _ ha => by
    obtain ⟨v, rfl⟩ := ha
    exact hf v

/-- A question that has the same answer for all numbers. -/
theorem Looks.test {q : Nat → Step Bool} {act' : Nat → Step α} (h : Looks q s Constant) (hpos : Looks act s R) (hneg : Looks act' s R) :
    Looks (fun c => q c >>= fun yes => if yes = true then act c else act' c) s R :=
  h.known fun _ => .ite (fun _ => hpos) fun _ => hneg

end Looks

section Reading

variable (hs : Pass.Numbered m loose s)

theorem looks_resolve {t : Nat → Tree} (ht : Tree.Numbered m loose t) : Looks (fun c => resolve (t c)) s (· = t) := by
  refine ⟨fun c => .ok (t c), fun c => ?_, .answer rfl⟩
  cases ht <;> rfl

theorem looks_plain {t : Nat → Tree} (ht : Tree.Numbered m loose t) : Looks (fun c => plain (t c)) s (Json.Numbered m loose) :=
  ⟨fun c => .ok ((t c).expand (s c).parts), fun _ => rfl, .answer (ht.expand _)⟩

include hs

/-- The value under a key, as its place holds it. -/
theorem looks_place (key : String) :
    Looks (fun _ => place key) s fun t => Tree.Numbered m (isTextKey key) t ∧ ∀ c, (s c).focus.field key = t c := by
  refine ⟨fun c => (layer (s c).focus).require key, fun c => ?_, ?_⟩
  · exact effect_lift ((layer (s c).focus).require key) (s c)
  · have h := hs.focus.layer.require key
    generalize hr : (fun c => (layer (s c).focus).require key) = r at h
    have hr (c : Nat) : (layer (s c).focus).require key = r c := congrFun hr c
    cases h with
    | fault e => exact .fault e
    | answer h => exact .answer ⟨h, fun c => Tree.field_of_require (hr c)⟩

theorem looks_child (key : String) : Looks (fun _ => child key) s (Tree.Numbered m (isTextKey key)) :=
  (looks_place hs key).bind fun _ ht => (looks_resolve ht.1).mono fun _ h => h ▸ ht.1

/-- The value under a key, none where nothing is there. -/
theorem looks_child? (key : String) : Looks (fun _ => child? key) s (NumberedOption (Tree.Numbered m (isTextKey key))) := by
  unfold child?
  refine (looks_focus (R := Tree.Numbered m loose) hs.focus).bind fun t ht => ?_
  cases ht with
  | obj _ seen fields h =>
    simp only [Fields.get?_at]
    cases hget : Fields.get? key fields with
    | none => exact looks_pure .none
    | some v =>
      have hv : Tree.Numbered m (isTextKey key) v := h _ (Fields.mem_of_get? hget)
      have hsome {loose : Bool} {v : Nat → Tree} (hv : Tree.Numbered m loose v) :
          Looks (fun c => do return some (← resolve (v c))) s (NumberedOption (Tree.Numbered m loose)) :=
        (looks_resolve hv).bind fun _ h => looks_pure (h ▸ .some hv)
      generalize isTextKey key = loose' at hv ⊢
      cases hv with
      | null => exact looks_pure .none
      | bool => exact hsome (.bool _ _)
      | int => exact hsome (.int _ _)
      | float => exact hsome (.float _ _)
      | str => exact hsome (.str _ _)
      | text h => exact hsome (.text h)
      | arr _ items h => exact hsome (.arr _ items h)
      | obj _ seen fields h => exact hsome (.obj _ seen fields h)
  | _ => exact looks_throw _

theorem looks_flag (key : String) : Looks (fun _ => flag key) s Constant := by
  refine (looks_child? hs key).bind fun o ho => ?_
  cases ho with
  | none => exact looks_pure (constant _)
  | some ht =>
    obtain ⟨b, hb⟩ := ht.layer.truthy
    exact looks_pure ⟨b, hb⟩

theorem looks_plainField (key : String) : Looks (fun _ => plainField key) s (Json.Numbered m (isTextKey key)) :=
  (looks_focus (R := Tree.Numbered m loose) hs.focus).bind fun _ ht => looks_plain (ht.field key)

theorem looks_position : Looks (fun _ => position) s (Json.Numbered m false) := by
  refine (looks_focus (R := Tree.Numbered m loose) hs.focus).bind fun t ht => ?_
  obtain ⟨b, hb⟩ := ht.layer.isNode.eq
  have hb (c : Nat) : (t c).isNode = b := hb c
  simp only [hb]
  exact .ite (fun _ => looks_plainField hs "loc") fun _ => looks_pure (.null _)

theorem looks_line : Looks (fun _ => line) s (Json.Numbered m true) := (looks_position hs).bind fun _ h => looks_lift h.lineOf

theorem looks_endLine : Looks (fun _ => endLine) s (Json.Numbered m true) := (looks_position hs).bind fun _ h => looks_lift h.endLineOf

theorem looks_conditionText {loose' : Bool} {t : Nat → Tree} (ht : Tree.Numbered m loose' t) :
    Looks (fun c => Step.conditionText (t c)) s (Json.Numbered m true) := by
  obtain ⟨code, hcode⟩ := hs.code.eq
  refine (looks_plain ht).bind fun j hj => (looks_get (R := (· = s)) rfl).bind fun _ h => ?_
  subst h
  simp only [hcode]
  exact (looks_lift (hj.conditionText code)).bind fun _ htext => looks_pure (.text htext)

end Reading

/-! ## Running -/

/-- A step keeps numbered states numbered: it meets the same fault for all of them, or gives answers of which `Q` tells more. -/
inductive Runs (act : Nat → Step α) (m : Nat) (loose : Bool) (s : Nat → Pass) (Q : Nat → (Nat → α) → (Nat → Pass) → Prop) : Prop
  | fault {m' : Nat} {s' : Nat → Pass} (e : Fault) (heffect : ∀ c, (act c).effect (s c) = (.error e, s' c)) (hle : m ≤ m')
      (hs' : Pass.Numbered m' loose s') (hkept : ∀ c, (s c).Kept (s' c))
  | answer {m' : Nat} {s' : Nat → Pass} {a : Nat → α} (heffect : ∀ c, (act c).effect (s c) = (.ok (a c), s' c)) (hle : m ≤ m')
      (hs' : Pass.Numbered m' loose s') (hkept : ∀ c, (s c).Kept (s' c)) (hQ : Q m' a s')

/-- A step that keeps numbered states numbered. -/
abbrev Walks (act : Nat → Step α) (m : Nat) (loose : Bool) (s : Nat → Pass) : Prop := Runs act m loose s fun _ _ _ => True

section Runs

variable {Q : Nat → (Nat → α) → (Nat → Pass) → Prop} {R : Nat → (Nat → β) → (Nat → Pass) → Prop} {act : Nat → Step α}
  {f : Nat → α → Step β}

theorem Runs.mono {Q' : Nat → (Nat → α) → (Nat → Pass) → Prop} (h : Runs act m loose s Q)
    (himp : ∀ m' a s', m ≤ m' → Q m' a s' → Q' m' a s') : Runs act m loose s Q' := by
  cases h with
  | fault e heffect hle hs' hkept => exact .fault e heffect hle hs' hkept
  | answer heffect hle hs' hkept hQ => exact .answer heffect hle hs' hkept (himp _ _ _ hle hQ)

theorem Runs.walks (h : Runs act m loose s Q) : Walks act m loose s := h.mono fun _ _ _ _ _ => trivial

theorem Runs.withKept (h : Runs act m loose s Q) : Runs act m loose s fun m' a s' => Q m' a s' ∧ ∀ c, (s c).Kept (s' c) := by
  cases h with
  | fault e heffect hle hs' hkept => exact .fault e heffect hle hs' hkept
  | answer heffect hle hs' hkept hQ => exact .answer heffect hle hs' hkept ⟨hQ, hkept⟩

/-- A step with the same effect as another. -/
theorem Runs.of_effect {act' : Nat → Step α} (h : Runs act m loose s Q) (heq : ∀ c, (act' c).effect (s c) = (act c).effect (s c)) :
    Runs act' m loose s Q := by
  cases h with
  | fault e heffect hle hs' hkept => exact .fault e (fun c => (heq c).trans (heffect c)) hle hs' hkept
  | answer heffect hle hs' hkept hQ => exact .answer (fun c => (heq c).trans (heffect c)) hle hs' hkept hQ

/-- A sequence of steps, one after the other. -/
theorem Runs.bind (h : Runs act m loose s Q)
    (hf : ∀ m' a s', m ≤ m' → Pass.Numbered m' loose s' → Q m' a s' → Runs (fun c => f c (a c)) m' loose s' R) :
    Runs (fun c => act c >>= f c) m loose s R := by
  cases h with
  | fault e heffect hle hs' hkept =>
    exact .fault e (fun c => by rw [effect_bind, heffect]) hle hs' hkept
  | @answer m' s' a heffect hle hs' hkept hQ =>
    have hbind (c : Nat) : (act c >>= f c).effect (s c) = (f c (a c)).effect (s' c) := by rw [effect_bind, heffect]
    cases hf _ _ _ hle hs' hQ with
    | fault e heffect hle' hs'' hkept' =>
      exact .fault e (fun c => (hbind c).trans (heffect c)) (Nat.le_trans hle hle') hs'' fun c => (hkept c).trans (hkept' c)
    | answer heffect hle' hs'' hkept' hR =>
      exact .answer (fun c => (hbind c).trans (heffect c)) (Nat.le_trans hle hle') hs'' (fun c => (hkept c).trans (hkept' c)) hR

theorem Runs.ite {p : Prop} [Decidable p] {act' : Nat → Step α} (hpos : p → Runs act m loose s Q) (hneg : ¬ p → Runs act' m loose s Q) :
    Runs (fun c => if p then act c else act' c) m loose s Q := by
  split
  · exact hpos ‹_›
  · exact hneg ‹_›

variable (hs : Pass.Numbered m loose s)

include hs

/-- A step that leaves the states as they are. -/
theorem Looks.runs {A : (Nat → α) → Prop} (h : Looks act s A) (hQ : ∀ a, A a → Q m a s) : Runs act m loose s Q := by
  obtain ⟨r, hr, hagreed⟩ := h
  cases hagreed with
  | fault e => exact .fault e hr (Nat.le_refl m) hs fun c => .refl _
  | answer ha => exact .answer hr (Nat.le_refl m) hs (fun c => .refl _) (hQ _ ha)

/-- A step that only looks, before others. -/
theorem Runs.look {A : (Nat → α) → Prop} (h : Looks act s A) (hf : ∀ a, A a → Runs (fun c => f c (a c)) m loose s R) :
    Runs (fun c => act c >>= f c) m loose s R := by
  refine (h.runs (Q := fun m' a s' => m' = m ∧ A a ∧ s' = s) hs fun a ha => ⟨rfl, ha, rfl⟩).bind ?_
  rintro m' a s' - - ⟨rfl, ha, rfl⟩
  exact hf a ha

/-- A question that has the same answer for all numbers. -/
theorem Runs.known (h : Looks act s Constant) (hf : ∀ v, Runs (fun c => f c v) m loose s R) :
    Runs (fun c => act c >>= f c) m loose s R :=
  .look hs h fun _ ha => by
    obtain ⟨v, rfl⟩ := ha
    exact hf v

theorem runs_pure {a : Nat → α} (hQ : Q m a s) : Runs (fun c => pure (a c)) m loose s Q :=
  (looks_pure (R := (· = a)) rfl).runs hs fun _ h => h ▸ hQ

/-- Whether there is something under a key. -/
theorem Runs.isSome (key : String) {f : Nat → Bool → Step β} (hf : ∀ b, Runs (fun c => f c b) m loose s R) :
    Runs (fun c => child? key >>= fun o => f c o.isSome) m loose s R :=
  .look hs (looks_child? hs key) fun _ ho => by
    cases ho with
    | none => exact hf false
    | some _ => exact hf true

end Runs

/-! ## Changing the focus -/

section Changing

variable (hs : Pass.Numbered m loose s)

include hs

/-- A step that changes the focus only, and that to a value which declares no more loop variables. -/
theorem runs_refocus {act : Nat → Step Unit} {t : Nat → Tree} (heffect : ∀ c, (act c).effect (s c) = (.ok (), { s c with focus := t c }))
    (ht : Tree.Numbered m loose t) (hkin : ∀ c, Json.Kin (s c).focus.bare (t c).bare)
    (hcount : ∀ c x, (t c).declarators x ≤ (s c).focus.declarators x) (hseen : ∀ c, (s c).focus.seen = true → (t c).seen = true) :
    Runs act m loose s fun m' _ s' => m' = m ∧ s' = fun c => { s c with focus := t c } :=
  .answer heffect (Nat.le_refl m) (hs.withFocus ht)
    (fun c => ⟨rfl, rfl, rfl, rfl, Nat.le_refl _, hkin c, fun x => Nat.le_trans (hcount c x) (Nat.le_add_right _ _), hseen c⟩) ⟨rfl, rfl⟩

theorem runs_mark : Runs (fun _ => mark) m loose s fun m' _ s' => m' = m ∧ s' = fun c => { s c with focus := (s c).focus.mark } := by
  have hbare (t : Tree) : t.mark.bare = t.bare := by
    cases t with
    | obj seen fs => rw [Tree.mark, Tree.bare_obj, Tree.bare_obj]
    | _ => rfl
  refine runs_refocus hs (fun _ => rfl) hs.focus.mark (fun c => ?_) (fun c x => ?_) fun c => ?_
  · rw [hbare]
    exact .refl _
  · rw [Tree.declarators, hbare]
    exact Nat.le_refl _
  · cases (s c).focus with
    | obj => exact fun _ => rfl
    | _ => exact fun hseen => by cases hseen

/-- A field is set to a value that declares no more loop variables than the one it holds. -/
theorem runs_setField {key : String} {v : Nat → Tree} (hkey : key ∉ ["type", "name", "id"]) (hv : Tree.Numbered m (isTextKey key) v)
    (hcount : ∀ c x, (v c).declarators x ≤ ((s c).focus.field key).declarators x) :
    Runs (fun c => setField key (v c)) m loose s fun m' _ s' =>
      m' = m ∧ s' = fun c => { s c with focus := (s c).focus.setField key (v c) } := by
  refine runs_refocus hs (fun _ => rfl) (hs.focus.setField hv) (fun c => Tree.kin_setField ?_) (fun c x => ?_) fun c h => ?_
  · rintro (rfl | rfl) <;> exact absurd (by decide) hkey
  · refine Tree.declarators_setField (b := 0) ?_ (hcount c x)
    rintro (rfl | rfl) <;> exact absurd (by decide) hkey
  · exact (Tree.seen_setField ..).trans h

omit hs in
theorem effect_changeList {s : Pass} {items : List Tree} (hfocus : s.focus = .arr items) (e : Fault) (f : List Tree → List Tree) :
    (changeList e f).effect s = (.ok (), { s with focus := .arr (f items) }) := by
  cases s
  cases hfocus
  rfl

omit hs in
theorem effect_changeList_other {s : Pass} (hfocus : ∀ items, s.focus ≠ .arr items) (e : Fault) (f : List Tree → List Tree) :
    (changeList e f).effect s = (.error e, s) := by
  rcases s with ⟨t, _⟩
  cases t with
  | arr items => exact absurd rfl (hfocus items)
  | _ => rfl

/-- The list in focus is changed to one that declares no more loop variables. -/
theorem runs_changeList (e : Fault) {f : Nat → List Tree → List Tree}
    (hf : ∀ items, NumberedList (Tree.Numbered m false) items → NumberedList (Tree.Numbered m false) fun c => f c (items c))
    (hcount : ∀ c items, (s c).focus = .arr items → ∀ x, (Tree.arr (f c items)).declarators x ≤ (Tree.arr items).declarators x) :
    Walks (fun c => changeList e (f c)) m loose s := by
  refine .look hs (looks_focus (R := fun t => Tree.Numbered m loose t ∧ t = fun c => (s c).focus) ⟨hs.focus, rfl⟩) fun t ht => ?_
  obtain ⟨ht, hfocus⟩ := ht
  have hfocus (c : Nat) : t c = (s c).focus := congrFun hfocus c
  cases ht with
  | arr _ items h =>
    obtain ⟨us, hus, hall⟩ := hf _ ⟨items, rfl, h⟩
    have hus (c : Nat) : f c (items.map (· c)) = us.map (· c) := congrFun hus c
    refine (runs_refocus hs (t := fun c => .arr (us.map (· c))) (fun c => ?_) (.arr _ us hall) (fun c => ?_) (fun c x => ?_) fun c h => ?_).walks
    · rw [← hus]
      rfl
    · rw [← hfocus c, Tree.bare_arr, Tree.bare_arr]
      exact ⟨rfl, rfl, rfl⟩
    · rw [← hfocus c, ← hus]
      exact hcount c _ (hfocus c).symm x
    · rw [← hfocus c] at h
      cases h
  | _ => exact ((looks_throw e).runs hs (A := fun _ => True) fun _ _ => trivial)

/-! ## Working on parts -/

/-- A step on the field under a key. -/
theorem Runs.inField {key : String} {act : Nat → Step α} {Q : Nat → (Nat → α) → (Nat → Pass) → Prop}
    (h : ∀ t, Tree.Numbered m (isTextKey key) t → (∀ c, (s c).focus.field key = t c) →
      (∀ c v, ((s c).focus.setField key v).field key = v) → Runs act m (isTextKey key) (fun c => { s c with focus := t c }) fun m' a s' =>
        Q m' a fun c => { s' c with focus := (s c).focus.setField key (s' c).focus }) :
    Runs (fun c => Step.inField key (act c)) m loose s Q := by
  have hfocus := hs.focus
  generalize ht : (fun c => (s c).focus) = t at hfocus
  have ht (c : Nat) : (s c).focus = t c := congrFun ht c
  have hmissing {e : Fault} (hrequire : ∀ c, (layer (t c)).require key = .error e) : Runs (fun c => Step.inField key (act c)) m loose s Q :=
    .fault e (fun c => effect_inField_error (act c) ((ht c).symm ▸ hrequire c)) (Nat.le_refl m) hs fun c => .refl _
  cases hfocus with
  | obj _ seen fields hfields =>
    cases hget : Fields.get? key fields with
    | none => exact hmissing fun c => by rw [layer_obj, Layer.require, Fields.get?_at, hget]; rfl
    | some v =>
      have hv : Tree.Numbered m (isTextKey key) v := hfields _ (Fields.mem_of_get? hget)
      have hfield (c : Nat) : (s c).focus.field key = v c := by
        rw [ht]
        change (Fields.get? key (fields.at c)).getD .null = v c
        rw [Fields.get?_at, hget]
        rfl
      have hrun (c : Nat) : (Step.inField key (act c)).effect (s c) =
          (((act c).effect { s c with focus := v c }).1, { ((act c).effect { s c with focus := v c }).2 with
            focus := (s c).focus.setField key ((act c).effect { s c with focus := v c }).2.focus }) := by
        rw [effect_inField (act c) (ht c) (by rw [Fields.get?_at, hget]; rfl) (hv.isShared c), ht c]
        rfl
      -- what is kept of the field is kept of the node around it
      have hkept {s' : Nat → Pass} (c : Nat) (h : Pass.Kept { s c with focus := v c } (s' c)) :
          (s c).Kept { s' c with focus := (s c).focus.setField key (s' c).focus } := by
        refine ⟨h.parts, h.code, h.classes, h.allows, h.counter, Tree.kin_setField fun _ => ?_, fun x => ?_, fun h => ?_⟩
        · rw [hfield]
          exact h.kin
        · refine Tree.declarators_setField (fun _ => ?_) ?_
          · rw [hfield]
            exact h.kin
          · rw [hfield]
            exact h.declarators x
        · exact (Tree.seen_setField ..).trans h
      have hset {m' : Nat} {s' : Nat → Pass} (hle : m ≤ m') (hs' : Pass.Numbered m' (isTextKey key) s') :
          Pass.Numbered m' loose fun c => { s' c with focus := (s c).focus.setField key (s' c).focus } :=
        hs'.withFocus ((hs.focus.mono hle).setField hs'.focus)
      have hnew (c : Nat) (w : Tree) : ((s c).focus.setField key w).field key = w := by
        rw [ht]
        change (Fields.get? key (Fields.set key w (fields.at c))).getD .null = w
        rw [Fields.get?_set, if_pos rfl]
        rfl
      cases h v hv hfield hnew with
      | fault e heffect hle hs' hk => exact .fault e (fun c => by rw [hrun, heffect]) hle (hset hle hs') fun c => hkept c (hk c)
      | answer heffect hle hs' hk hQ => exact .answer (fun c => by rw [hrun, heffect]) hle (hset hle hs') (fun c => hkept c (hk c)) hQ
  | null => exact hmissing fun _ => rfl
  | bool => exact hmissing fun _ => rfl
  | int => exact hmissing fun _ => rfl
  | float => exact hmissing fun _ => rfl
  | str => exact hmissing fun _ => rfl
  | text => exact hmissing fun _ => rfl
  | arr => exact hmissing fun _ => rfl

/-- A step with a queue of its own, and what it queued. -/
theorem Runs.withQueue (allows : Bool) {act : Nat → Step α} {Q : Nat → (Nat → α) → (Nat → Pass) → Prop}
    {R : Nat → (Nat → α × Queue) → (Nat → Pass) → Prop} (h : Runs act m loose (fun c => { s c with queue := .empty allows }) Q)
    (hR : ∀ m' a s', Pass.Numbered m' loose s' → Q m' a s' →
      R m' (fun c => (a c, (s' c).queue)) fun c => { s' c with queue := (s c).queue }) :
    Runs (fun c => Step.withQueue allows (act c)) m loose s R := by
  have heffect (c : Nat) : (Step.withQueue allows (act c)).effect (s c) =
      (((act c).effect { s c with queue := .empty allows }).1.map (·, ((act c).effect { s c with queue := .empty allows }).2.queue),
        { ((act c).effect { s c with queue := .empty allows }).2 with queue := (s c).queue }) := rfl
  have hkept {s' : Nat → Pass} (c : Nat) (hk : Pass.Kept { s c with queue := .empty allows } (s' c)) :
      (s c).Kept { s' c with queue := (s c).queue } :=
    ⟨hk.parts, hk.code, hk.classes, rfl, hk.counter, hk.kin, hk.declarators, hk.seen⟩
  cases h with
  | fault e hrun hle hs' hk =>
    refine .fault e (fun c => ?_) hle (hs'.withQueue hle hs.before hs.after hs.allows) fun c => hkept c (hk c)
    rw [heffect, hrun]
    rfl
  | answer hrun hle hs' hk hQ =>
    refine .answer (fun c => ?_) hle (hs'.withQueue hle hs.before hs.after hs.allows) (fun c => hkept c (hk c)) (hR _ _ _ hs' hQ)
    rw [heffect, hrun]
    rfl

/-- A step on an expression that must not queue probes. -/
theorem Runs.quietly {act : Nat → Step α} {Q : Nat → (Nat → α) → (Nat → Pass) → Prop}
    (h : Runs act m loose (fun c => { s c with queue := .empty false }) fun m' a s' => Q m' a fun c => { s' c with queue := (s c).queue }) :
    Runs (fun c => Step.quietly (act c)) m loose s Q :=
  (Runs.withQueue hs false h (R := fun m' a s' => Q m' (fun c => (a c).1) s') fun _ _ _ _ hQ => hQ).bind
    fun _ _ _ _ hs' hQ => runs_pure hs' hQ

/-- A step inside a class. -/
theorem Runs.inClass {name : Nat → Json} {act : Nat → Step α}
    (h : Walks act m loose fun c => { s c with classes := name c :: (s c).classes }) :
    Walks (fun c => Step.inClass (name c) (act c)) m loose s := by
  have heffect (c : Nat) : (Step.inClass (name c) (act c)).effect (s c) =
      (((act c).effect { s c with classes := name c :: (s c).classes }).1,
        { ((act c).effect { s c with classes := name c :: (s c).classes }).2 with classes := (s c).classes }) := rfl
  have hkept {s' : Nat → Pass} (c : Nat) (hk : Pass.Kept { s c with classes := name c :: (s c).classes } (s' c)) :
      (s c).Kept { s' c with classes := (s c).classes } :=
    ⟨hk.parts, hk.code, rfl, hk.allows, hk.counter, hk.kin, hk.declarators, hk.seen⟩
  cases h with
  | fault e hrun hle hs' hk =>
    exact .fault e (fun c => by rw [heffect, hrun]) hle (hs'.withClasses hle hs.classes) fun c => hkept c (hk c)
  | answer hrun hle hs' hk hQ =>
    exact .answer (fun c => by rw [heffect, hrun]) hle (hs'.withClasses hle hs.classes) (fun c => hkept c (hk c)) trivial

theorem runs_queueBefore {t : Nat → Tree} (ht : Waiting m t) : Walks (fun c => queueBefore (t c)) m loose s :=
  .answer (a := fun _ => ()) (fun _ => rfl) (Nat.le_refl m)
    (hs.withQueue (Nat.le_refl m) (hs.before.append (.cons ht .nil)) hs.after hs.allows)
    (fun _ => ⟨rfl, rfl, rfl, rfl, Nat.le_refl _, .refl _, fun _ => Nat.le_add_right _ _, id⟩) trivial

theorem runs_queueAfter {t : Nat → Tree} (ht : Waiting m t) : Walks (fun c => queueAfter (t c)) m loose s :=
  .answer (a := fun _ => ()) (fun _ => rfl) (Nat.le_refl m)
    (hs.withQueue (Nat.le_refl m) hs.before (hs.after.append (.cons ht .nil)) hs.allows)
    (fun _ => ⟨rfl, rfl, rfl, rfl, Nat.le_refl _, .refl _, fun _ => Nat.le_add_right _ _, id⟩) trivial

end Changing

/-! ## Lists -/

/-- What is left of some values after a step on each: numbered values, with new loop variables only among those that were
introduced; all else is kept as by one step, and the focus is what it was. -/
structure LeftEach (m : Nat) (loose : Bool) (s : Nat → Pass) (ts : List (Nat → Tree)) (m' : Nat) (s' : Nat → Pass)
    (us : List (Nat → Tree)) : Prop where
  le : m ≤ m'
  numbered : Pass.Numbered m' loose s'
  items : ∀ u ∈ us, Tree.Numbered m' false u
  kept (c : Nat) : (s c).Kept (s' c)
  focus (c : Nat) : (s' c).focus = (s c).focus
  declarators (c : Nat) (x : String) : (Tree.arr (us.map (· c))).declarators x ≤
    (Tree.arr (ts.map (· c))).declarators x + (introduced (s c).counter (s' c).counter).count x

/-- A step on each of some values. -/
theorem runs_withinEach {m₀ : Nat} {act : Nat → Step α} {A : Nat → (Nat → α) → Prop}
    (hmono : ∀ {m m' a}, m ≤ m' → A m a → A m' a)
    (hact : ∀ m s, m₀ ≤ m → Pass.Numbered m false s → Runs act m false s fun m' a _ => A m' a) :
    ∀ (ts : List (Nat → Tree)) {m s}, m₀ ≤ m → Pass.Numbered m loose s → (∀ t ∈ ts, Tree.Numbered m false t) →
      ∃ m' s' us, LeftEach m loose s ts m' s' us ∧
        ((∃ e, ∀ c, withinEach (act c) (ts.map (· c)) (s c) = ((.error e, us.map (· c)), s' c)) ∨
          ∃ as : List (Nat → α), (∀ a ∈ as, A m' a) ∧
            ∀ c, withinEach (act c) (ts.map (· c)) (s c) = ((.ok (as.map (· c)), us.map (· c)), s' c))
  | [], m, s, _, hs, _ =>
    ⟨m, s, [], ⟨Nat.le_refl m, hs, nofun, fun _ => .refl _, fun _ => rfl, fun _ _ => Nat.le_add_right _ _⟩, .inr ⟨[], nofun, fun _ => rfl⟩⟩
  | t :: ts, m, s, hm, hs, hts => by
    obtain ⟨ht, hts⟩ := List.forall_mem_cons.1 hts
    have hcons (c : Nat) := withinEach_cons (act c) (s c) (ts.map (· c)) (ht.isShared c)
    have hkept {s' : Nat → Pass} (c : Nat) (hk : Pass.Kept { s c with focus := t c } (s' c)) :
        (s c).Kept { s' c with focus := (s c).focus } :=
      ⟨hk.parts, hk.code, hk.classes, hk.allows, hk.counter, .refl _, fun _ => Nat.le_add_right _ _, id⟩
    cases hact m _ hm (hs.withFocus ht) with
    | @fault m' s' e heffect hle hs' hk =>
      refine ⟨m', fun c => { s' c with focus := (s c).focus }, (fun c => (s' c).focus) :: ts, ?_, .inl ⟨e, fun c => ?_⟩⟩
      · refine ⟨hle, hs'.withFocus (hs.focus.mono hle), ?_, fun c => hkept c (hk c), fun _ => rfl, fun c x => ?_⟩
        · exact List.forall_mem_cons.2 ⟨hs'.focus, fun u hu => (hts u hu).mono hle⟩
        · have hfirst := (hk c).declarators x
          simp only [List.map_cons, Tree.declarators_arr, List.sum_cons] at hfirst ⊢
          omega
      · rw [List.map_cons, hcons, heffect]
        rfl
    | @answer m' s' a heffect hle hs' hk hA =>
      have hs'' := hs'.withFocus (hs.focus.mono hle)
      obtain ⟨m'', s'', us, hleft, hrest⟩ := runs_withinEach (A := A) hmono hact ts (Nat.le_trans hm hle) hs'' fun u hu => (hts u hu).mono hle
      have hkept' (c : Nat) : (s c).Kept (s'' c) := (hkept c (hk c)).trans (hleft.kept c)
      refine ⟨m'', s'', (fun c => (s' c).focus) :: us, ?_, ?_⟩
      · refine ⟨Nat.le_trans hle hleft.le, hleft.numbered, ?_, hkept', hleft.focus, fun c x => ?_⟩
        · exact List.forall_mem_cons.2 ⟨hs'.focus.mono hleft.le, hleft.items⟩
        · have hfirst := (hk c).declarators x
          have hothers := hleft.declarators c x
          have hcount := congrArg (List.count x) (introduced_append (hk c).counter (hleft.kept c).counter)
          rw [List.count_append] at hcount
          simp only [List.map_cons, Tree.declarators_arr, List.sum_cons] at hfirst hothers hcount ⊢
          omega
      · rcases hrest with ⟨e, hrest⟩ | ⟨as, has, hrest⟩
        · refine .inl ⟨e, fun c => ?_⟩
          rw [List.map_cons, hcons, heffect]
          simp only [hrest]
          rfl
        · refine .inr ⟨a :: as, List.forall_mem_cons.2 ⟨hmono hleft.le hA, has⟩, fun c => ?_⟩
          rw [List.map_cons, hcons, heffect]
          simp only [hrest]
          rfl

/-- A step on each element of a value that is no list: the value stays what it is. -/
theorem effect_eachItem_other {s : Pass} {ts : List Tree} (act : Step α) (hts : (layer s.focus).elements = .ok ts)
    (hfocus : ∀ items, s.focus ≠ .arr items) : (eachItem act).effect s = ((withinEach act ts s).1.1, (withinEach act ts s).2) := by
  have hkept := focus_withinEach act ts s
  rw [eachItem, effect_ofEffect]
  simp only [hts]
  split
  · next us h => exact absurd (hkept ▸ h) (hfocus us)
  · rfl

/-- A step on each element of the focus. -/
theorem Runs.eachItem (hs : Pass.Numbered m loose s) (hloose : loose = false ∨ ∃ items : Nat → List Tree, ∀ c, (s c).focus = .arr (items c))
    {act : Nat → Step α} {A : Nat → (Nat → α) → Prop} (hmono : ∀ {m m' a}, m ≤ m' → A m a → A m' a)
    (hact : ∀ m' s', m ≤ m' → Pass.Numbered m' false s' → Runs act m' false s' fun m' a _ => A m' a) :
    Runs (fun c => Step.eachItem (act c)) m loose s fun m' a _ => NumberedList (A m') a := by
  have hstrings (words : List String) (helements : ∀ c, (layer (s c).focus).elements = .ok (words.map Tree.str))
      (hother : ∀ c items, (s c).focus ≠ .arr items) : Runs (fun c => Step.eachItem (act c)) m loose s fun m' a _ => NumberedList (A m') a := by
    obtain ⟨m', s', us, hleft, hrun⟩ := runs_withinEach (A := A) hmono hact (words.map fun w (_ : Nat) => Tree.str w) (Nat.le_refl m) hs
      (List.forall_mem_map.2 fun w _ => .str _ w)
    have heffect (c : Nat) := effect_eachItem_other (act c) (helements c) (hother c)
    simp only [List.map_map, Function.comp_def] at hrun
    rcases hrun with ⟨e, hrun⟩ | ⟨as, has, hrun⟩
    · exact .fault e (fun c => by rw [heffect]; simp only [hrun]) hleft.le hleft.numbered hleft.kept
    · exact .answer (fun c => by rw [heffect]; simp only [hrun]) hleft.le hleft.numbered hleft.kept ⟨as, rfl, has⟩
  have hfocus := hs.focus
  generalize ht : (fun c => (s c).focus) = t at hfocus
  have ht (c : Nat) : (s c).focus = t c := congrFun ht c
  have hfault (helements : ∀ c, (layer (t c)).elements = .error .wrongKind) :
      Runs (fun c => Step.eachItem (act c)) m loose s fun m' a _ => NumberedList (A m') a := by
    refine .fault .wrongKind (fun c => ?_) (Nat.le_refl m) hs fun _ => .refl _
    rw [Step.eachItem, effect_ofEffect]
    simp only [ht, helements]
  cases hfocus with
  | arr _ items h =>
    obtain ⟨m', s', us, hleft, hrun⟩ := runs_withinEach (A := A) hmono hact items (Nat.le_refl m) hs h
    have heffect (c : Nat) := effect_eachItem (act c) (ht c) (focus_withinEach _ _ _)
    have hs' := hleft.numbered.withFocus (.arr loose us hleft.items)
    have hkept (c : Nat) : (s c).Kept { s' c with focus := .arr (us.map (· c)) } := by
      have h := hleft.kept c
      refine ⟨h.parts, h.code, h.classes, h.allows, h.counter, ?_, fun x => ?_, fun hseen => ?_⟩
      · rw [ht, Tree.bare_arr, Tree.bare_arr]
        exact ⟨rfl, rfl, rfl⟩
      · rw [ht]
        exact hleft.declarators c x
      · rw [ht] at hseen
        cases hseen
    rcases hrun with ⟨e, hrun⟩ | ⟨as, has, hrun⟩
    · exact .fault e (fun c => by rw [heffect]; simp only [hrun]) hleft.le hs' hkept
    · exact .answer (fun c => by rw [heffect]; simp only [hrun]) hleft.le hs' hkept ⟨as, rfl, has⟩
  | str _ text =>
    refine hstrings (text.toList.map String.singleton) (fun c => ?_) fun c items => ?_
    · rw [ht, List.map_map]
      rfl
    · rw [ht]
      exact fun harr => by cases harr
  | obj _ seen fields =>
    refine hstrings (Fields.names fields) (fun c => ?_) fun c items => ?_
    · rw [ht, layer_obj, Layer.elements, Fields.at, Fields.mapValues, Fields.names, List.map_map, List.map_map]
      rfl
    · rw [ht]
      exact fun harr => by cases harr
  | text h =>
    rcases hloose with h | ⟨items, h⟩
    · cases h
    · have hclash := (ht 0).symm.trans (h 0)
      cases hclash
  | _ => exact hfault fun _ => rfl

/-- A loop over values that are taken place by place. -/
theorem runs_forIn {f : Nat → β → PUnit → Step (ForInStep PUnit)} : ∀ (xs : List (Nat → β)) {m s}, Pass.Numbered m loose s →
    (∀ x ∈ xs, ∀ m' s', m ≤ m' → Pass.Numbered m' loose s' → Runs (fun c => f c (x c) ⟨⟩) m' loose s' fun _ r _ => r = fun _ => .yield ⟨⟩) →
      Walks (fun c => forIn (xs.map (· c)) PUnit.unit (f c)) m loose s
  | [], m, s, hs, _ => by
    simp only [List.map_nil, List.forIn_nil]
    exact runs_pure hs trivial
  | x :: xs, m, s, hs, hf => by
    simp only [List.map_cons, List.forIn_cons]
    refine (hf x List.mem_cons_self m s (Nat.le_refl m) hs).bind fun m' r s' hle hs' hr => ?_
    subst hr
    exact runs_forIn xs hs' fun y hy m'' s'' hle' => hf y (List.mem_cons_of_mem x hy) m'' s'' (Nat.le_trans hle hle')

/-- A loop over names that are the same for all numbers. -/
theorem runs_forIn_names {f : Nat → String → PUnit → Step (ForInStep PUnit)} (names : List String) (hs : Pass.Numbered m loose s)
    (hf : ∀ name m' s', m ≤ m' → Pass.Numbered m' loose s' → Runs (fun c => f c name ⟨⟩) m' loose s' fun _ r _ => r = fun _ => .yield ⟨⟩) :
    Walks (fun c => forIn names PUnit.unit (f c)) m loose s := by
  have hloop := runs_forIn (f := f) (names.map fun name _ => name) hs (List.forall_mem_map.2 fun name _ => hf name)
  simpa only [List.map_map, Function.comp_def, List.map_id'] using hloop

end Step

end ScriptTrace
