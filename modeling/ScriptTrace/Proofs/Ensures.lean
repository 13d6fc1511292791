import ScriptTrace.Probe.Visit

/-!
# What a step ensures

A pass may end in a fault at any step, so its steps are reasoned about by what holds if they succeed.

* `Ensures act s Q` : if `act` succeeds in state `s`, its answer and the state afterwards satisfy `Q`;
* `ensures_bind` : a sequence of steps, one after the other;
* `ensures_focus`, `ensures_place`, ... : one lemma for each step that looks at or changes the focus;
* `ensures_within`, `ensures_inField` : a step on a part, in a state that has no shared parts;
* `ensures_withQueue`, `ensures_inClass` : the bookkeeping around a step.
-/

namespace ScriptTrace.Step

variable {α β : Type} {Q : α → Pass → Prop} {s : Pass}

/-- What holds of the answer and the state after a step, if it succeeds. -/
def Ensures (act : Step α) (s : Pass) (Q : α → Pass → Prop) : Prop :=
  ∀ a s', act.effect s = (.ok a, s') → Q a s'

theorem Ensures.mono {act : Step α} {P : α → Pass → Prop} (h : Ensures act s P)
    (himp : ∀ a s', P a s' → Q a s') : Ensures act s Q :=
  fun a s' he => himp a s' (h a s' he)

/-! ## Sequences and answers -/

theorem effect_bind (act : Step α) (f : α → Step β) (s : Pass) :
    (act >>= f).effect s = match act.effect s with
      | (.ok a, s') => (f a).effect s'
      | (.error e, s') => (.error e, s') := by
  rcases h : act.effect s with ⟨r, s'⟩
  have h' : (act : StateM Pass (Except Fault α)) s = (r, s') := h
  change (act >>= ExceptT.bindCont f : StateM Pass (Except Fault β)) s = _
  simp only [bind, StateT.bind, h']
  cases r <;> rfl

@[simp] theorem ensures_bind {R : β → Pass → Prop} {act : Step α} {f : α → Step β} :
    Ensures (act >>= f) s R ↔ Ensures act s fun a s' => Ensures (f a) s' R := by
  constructor
  · intro h a s' ha b s'' hb
    exact h b s'' (by rw [effect_bind, ha]; exact hb)
  · intro h b s'' hb
    rw [effect_bind] at hb
    rcases ha : act.effect s with ⟨r, s'⟩
    cases r with
    | ok a => rw [ha] at hb; exact h a s' ha b s'' hb
    | error e => rw [ha] at hb; cases hb

@[simp] theorem ensures_pure {a : α} : Ensures (pure a : Step α) s Q ↔ Q a s := by
  constructor
  · intro h; exact h a s rfl
  · rintro h b s' ⟨⟩; exact h

@[simp] theorem ensures_throw {e : Fault} : Ensures (throw e : Step α) s Q := by
  rintro a s' ⟨⟩

@[simp] theorem ensures_lift {r : Except Fault α} :
    Ensures (liftM r : Step α) s Q ↔ ∀ a, r = .ok a → Q a s := by
  constructor
  · rintro h a rfl
    exact h a s rfl
  · intro h a s' he
    cases r <;> cases he
    exact h a rfl

@[simp] theorem ensures_map {f : α → β} {R : β → Pass → Prop} {act : Step α} :
    Ensures (f <$> act) s R ↔ Ensures act s fun a s' => R (f a) s' := by
  rw [map_eq_pure_bind, ensures_bind]
  simp only [ensures_pure]

@[simp] theorem ensures_discard {R : Unit → Pass → Prop} {act : Step α} :
    Ensures (discard act) s R ↔ Ensures act s fun _ s' => R () s' := by
  rw [show discard act = (fun _ => ()) <$> act from rfl, ensures_map]

@[simp] theorem ensures_get {R : Pass → Pass → Prop} : Ensures (get : Step Pass) s R ↔ R s s :=
  ⟨fun h => h s s rfl, fun h => by rintro a s' ⟨⟩; exact h⟩

@[simp] theorem ensures_modify {R : Unit → Pass → Prop} {f : Pass → Pass} :
    Ensures (modify f : Step Unit) s R ↔ R () (f s) :=
  ⟨fun h => h () (f s) rfl, fun h => by rintro a s' ⟨⟩; exact h⟩

theorem ensures_ofEffect {f : Pass → Except Fault α × Pass} :
    Ensures (ofEffect f) s Q ↔ ∀ a s', f s = (.ok a, s') → Q a s' := Iff.rfl

theorem ensures_if {c : Prop} [Decidable c] {act₁ act₂ : Step α} :
    Ensures (if c then act₁ else act₂) s Q ↔ (c → Ensures act₁ s Q) ∧ (¬ c → Ensures act₂ s Q) := by
  split <;> simp_all

/-- A loop over a list: what holds of the items that are left is kept by every turn. -/
theorem ensures_forIn {f : α → PUnit → Step (ForInStep PUnit)} {I : List α → Pass → Prop}
    (hstep : ∀ x rest s, I (x :: rest) s → Ensures (f x ⟨⟩) s fun r s' => r = .yield ⟨⟩ ∧ I rest s') :
    ∀ (xs : List α) (s : Pass), I xs s → Ensures (forIn xs PUnit.unit f) s fun _ s' => I [] s'
  | [], s, h => by
    rw [List.forIn_nil, ensures_pure]
    exact h
  | x :: xs, s, h => by
    rw [List.forIn_cons, ensures_bind]
    refine (hstep x xs s h).mono ?_
    rintro _ s' ⟨rfl, h⟩
    exact ensures_forIn hstep xs s' h

/-! ## Looking at the focus -/

@[simp] theorem ensures_focus {R : Tree → Pass → Prop} : Ensures focus s R ↔ R s.focus s := by
  simp [focus]

@[simp] theorem ensures_setFocus {R : Unit → Pass → Prop} {t : Tree} :
    Ensures (setFocus t) s R ↔ R () { s with focus := t } := by
  simp [setFocus]

@[simp] theorem ensures_plain {R : Json → Pass → Prop} {t : Tree} :
    Ensures (plain t) s R ↔ R (t.expand s.parts) s := by
  simp [plain]

@[simp] theorem ensures_place {R : Tree → Pass → Prop} {key : String} :
    Ensures (place key) s R ↔ ∀ t, (layer s.focus).require key = .ok t → R t s := by
  simp [place]

@[simp] theorem ensures_plainField {R : Json → Pass → Prop} {key : String} :
    Ensures (plainField key) s R ↔ R ((s.focus.field key).expand s.parts) s := by
  simp [plainField]

/-! ## Changing the focus -/

@[simp] theorem ensures_mark {R : Unit → Pass → Prop} :
    Ensures mark s R ↔ R () { s with focus := s.focus.mark } := by
  simp [mark]

@[simp] theorem ensures_setField {R : Unit → Pass → Prop} {key : String} {t : Tree} :
    Ensures (setField key t) s R ↔ R () { s with focus := s.focus.setField key t } := by
  simp [setField]

@[simp] theorem ensures_changeList {R : Unit → Pass → Prop} {e : Fault} {f : List Tree → List Tree} :
    Ensures (changeList e f) s R ↔
      ∀ items, s.focus = .arr items → R () { s with focus := .arr (f items) } := by
  unfold changeList
  rw [ensures_bind, ensures_focus]
  cases h : s.focus <;> simp

/-! ## Bookkeeping -/

@[simp] theorem ensures_withQueue {R : α × Queue → Pass → Prop} {allows : Bool} {act : Step α} :
    Ensures (withQueue allows act) s R ↔
      Ensures act { s with queue := .empty allows } fun a s' => R (a, s'.queue) { s' with queue := s.queue } := by
  rw [withQueue, ensures_ofEffect]
  constructor
  · intro h a s' ha
    exact h (a, s'.queue) _ (by rw [ha]; rfl)
  · intro h p s'' hp
    rcases ha : act.effect { s with queue := .empty allows } with ⟨r, s'⟩
    rw [ha] at hp
    cases r with
    | ok a => cases hp; exact h a s' ha
    | error e => cases hp

@[simp] theorem ensures_quietly {act : Step α} :
    Ensures (quietly act) s Q ↔
      Ensures act { s with queue := .empty false } fun a s' => Q a { s' with queue := s.queue } := by
  simp [quietly]

@[simp] theorem ensures_inClass {name : Json} {act : Step α} :
    Ensures (inClass name act) s Q ↔
      Ensures act { s with classes := name :: s.classes } fun a s' => Q a { s' with classes := s.classes } := by
  rw [inClass, ensures_ofEffect]
  constructor
  · intro h a s' ha
    exact h a _ (by rw [ha])
  · intro h a s'' hp
    rcases ha : act.effect { s with classes := name :: s.classes } with ⟨r, s'⟩
    rw [ha] at hp
    cases hp
    exact h a s' ha

@[simp] theorem ensures_queueBefore {R : Unit → Pass → Prop} {t : Tree} :
    Ensures (queueBefore t) s R ↔
      R () { s with queue := { s.queue with before := s.queue.before ++ [t] } } := by
  simp [queueBefore]

@[simp] theorem ensures_queueAfter {R : Unit → Pass → Prop} {t : Tree} :
    Ensures (queueAfter t) s R ↔
      R () { s with queue := { s.queue with after := s.queue.after ++ [t] } } := by
  simp [queueAfter]

@[simp] theorem ensures_freshNumber {R : Nat → Pass → Prop} :
    Ensures freshNumber s R ↔ R (s.counter + 1) { s with counter := s.counter + 1 } := by
  simp [freshNumber]

end ScriptTrace.Step
