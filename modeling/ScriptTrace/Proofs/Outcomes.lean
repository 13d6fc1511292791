import ScriptTrace.Proofs.BareTrees

/-!
# How a computation ends

Steps of a pass, and the computations that read nodes, end with an answer or with a fault. Both endings are
reasoned about at once: which answers there can be, and which faults.

* `EndsIn r Q E` : `r` ends with an answer in `Q` or with a fault in `E`;
* `Step.Yields act s Q E` : so does a step in state `s`, with the state afterwards;
* `ends_bind`, `yields_bind` : a sequence ends as its parts do;
* `yields_inField`, `yields_eachItem` : a step on a part, in a state without shared parts.

With no fault in `E` both say that the computation succeeds.
-/

namespace ScriptTrace

variable {α β : Type} {E : Fault → Prop}

/-! ## Computations -/

/-- A computation ends with an answer in `Q` or a fault in `E`. -/
def EndsIn (r : Except Fault α) (Q : α → Prop) (E : Fault → Prop) : Prop :=
  match r with
  | .ok a => Q a
  | .error e => E e

/-- A computation ends with an answer in `Q`. -/
abbrev Succeeds (r : Except Fault α) (Q : α → Prop) : Prop := EndsIn r Q fun _ => False

theorem ok_of_toOption {ε : Type} {r : Except ε α} {a : α} (h : r.toOption = some a) : r = .ok a := by
  cases r with
  | ok b => exact congrArg Except.ok (Option.some.inj h)
  | error e => cases h

section EndsIn

variable {Q : α → Prop} {R : β → Prop} {r : Except Fault α} {f : α → Except Fault β}

@[simp] theorem ends_ok {a : α} : EndsIn (.ok a) Q E ↔ Q a := Iff.rfl

@[simp] theorem ends_error {e : Fault} : EndsIn (.error e : Except Fault α) Q E ↔ E e := Iff.rfl

@[simp] theorem ends_pure {a : α} : EndsIn (pure a) Q E ↔ Q a := Iff.rfl

@[simp] theorem ends_throw {e : Fault} : EndsIn (throw e : Except Fault α) Q E ↔ E e := Iff.rfl

theorem ends_bind : EndsIn (r >>= f) R E ↔ EndsIn r (fun a => EndsIn (f a) R E) E := by
  cases r <;> rfl

@[simp] theorem ends_map {g : α → β} : EndsIn (g <$> r) R E ↔ EndsIn r (fun a => R (g a)) E := by
  cases r <;> rfl

theorem EndsIn.mono {P : α → Prop} (h : EndsIn r P E) (himp : ∀ a, P a → Q a) : EndsIn r Q E := by
  cases r with
  | ok a => exact himp a h
  | error e => exact h

theorem EndsIn.faults {E' : Fault → Prop} (h : EndsIn r Q E) (himp : ∀ e, E e → E' e) : EndsIn r Q E' := by
  cases r with
  | ok a => exact h
  | error e => exact himp e h

/-- A sequence of computations, one after the other. -/
theorem EndsIn.bind (h : EndsIn r Q E) (hf : ∀ a, Q a → EndsIn (f a) R E) : EndsIn (r >>= f) R E :=
  ends_bind.2 (h.mono hf)

theorem Succeeds.exists_ok (h : Succeeds r Q) : ∃ a, r = .ok a ∧ Q a := by
  cases r with
  | ok a => exact ⟨a, rfl, h⟩
  | error e => exact absurd h id

theorem succeeds_of_eq {a : α} (h : r = .ok a) (ha : Q a) : EndsIn r Q E := by
  rw [h]
  exact ha

/-- What a computation answers is known of the answer. -/
theorem EndsIn.known (h : EndsIn r Q E) : EndsIn r (fun a => r = .ok a ∧ Q a) E := by
  cases r with
  | ok a => exact ⟨rfl, h⟩
  | error e => exact h

theorem ends_ite {c : Prop} [Decidable c] {r' : Except Fault α} (hpos : c → EndsIn r Q E) (hneg : ¬ c → EndsIn r' Q E) :
    EndsIn (if c then r else r') Q E := by
  split
  · exact hpos ‹_›
  · exact hneg ‹_›

/-- The same computation for each of some values. -/
theorem ends_mapM {P : β → Prop} : ∀ {xs : List α}, (∀ x ∈ xs, EndsIn (f x) P E) →
    EndsIn (xs.mapM f) (fun ys => ∀ y ∈ ys, P y) E
  | [], _ => fun _ hy => nomatch hy
  | x :: xs, h => by
    rw [List.mapM_cons]
    refine (h x List.mem_cons_self).bind fun y hy => ?_
    refine (ends_mapM fun z hz => h z (List.mem_cons_of_mem x hz)).bind fun ys hys => ?_
    rw [ends_pure]
    exact List.forall_mem_cons.2 ⟨hy, hys⟩

end EndsIn

/-! ## Steps -/

namespace Step

variable {Q : α → Pass → Prop} {s : Pass}

/-- A step ends with an answer and a state in `Q`, or with a fault in `E`. -/
def Yields (act : Step α) (s : Pass) (Q : α → Pass → Prop) (E : Fault → Prop) : Prop :=
  EndsIn (act.effect s).1 (Q · (act.effect s).2) E

theorem Yields.mono {act : Step α} {P : α → Pass → Prop} (h : Yields act s P E) (himp : ∀ a s', P a s' → Q a s') :
    Yields act s Q E :=
  EndsIn.mono h fun a ha => himp a _ ha

/-! ### Sequences and answers -/

theorem yields_bind {R : β → Pass → Prop} {act : Step α} {f : α → Step β} :
    Yields (act >>= f) s R E ↔ Yields act s (fun a s' => Yields (f a) s' R E) E := by
  unfold Yields
  rw [effect_bind]
  rcases act.effect s with ⟨r, s'⟩
  cases r <;> rfl

/-- A sequence of steps, one after the other. -/
theorem Yields.bind {R : β → Pass → Prop} {act : Step α} {f : α → Step β} (h : Yields act s Q E)
    (hf : ∀ a s', Q a s' → Yields (f a) s' R E) : Yields (act >>= f) s R E :=
  yields_bind.2 (h.mono hf)

@[simp] theorem yields_pure {a : α} : Yields (pure a : Step α) s Q E ↔ Q a s := Iff.rfl

@[simp] theorem yields_throw {e : Fault} : Yields (throw e : Step α) s Q E ↔ E e := Iff.rfl

@[simp] theorem yields_lift {r : Except Fault α} : Yields (liftM r : Step α) s Q E ↔ EndsIn r (Q · s) E := by
  cases r <;> rfl

@[simp] theorem yields_map {f : α → β} {R : β → Pass → Prop} {act : Step α} :
    Yields (f <$> act) s R E ↔ Yields act s (fun a s' => R (f a) s') E := by
  rw [map_eq_pure_bind, yields_bind]
  simp only [yields_pure]

@[simp] theorem yields_discard {R : Unit → Pass → Prop} {act : Step α} :
    Yields (discard act) s R E ↔ Yields act s (fun _ s' => R () s') E := by
  rw [show discard act = (fun _ => ()) <$> act from rfl, yields_map]

@[simp] theorem yields_get {R : Pass → Pass → Prop} : Yields (get : Step Pass) s R E ↔ R s s := Iff.rfl

@[simp] theorem yields_modify {R : Unit → Pass → Prop} {f : Pass → Pass} :
    Yields (modify f : Step Unit) s R E ↔ R () (f s) := Iff.rfl

theorem yields_ite {c : Prop} [Decidable c] {act act' : Step α} (hpos : c → Yields act s Q E)
    (hneg : ¬ c → Yields act' s Q E) : Yields (if c then act else act') s Q E := by
  split
  · exact hpos ‹_›
  · exact hneg ‹_›

/-- A step that is left out where a condition fails. -/
theorem yields_when {c : Prop} [Decidable c] {act : Step Unit} {f : Unit → Step β} {P : Pass → Prop}
    {R : β → Pass → Prop} (hpos : c → Yields act s (fun _ s' => P s') E) (hneg : ¬ c → P s)
    (hf : ∀ s', P s' → Yields (f ()) s' R E) : Yields (if c then act >>= f else f ()) s R E := by
  split
  · exact (hpos ‹_›).bind fun _ s' h => hf s' h
  · exact hf s (hneg ‹_›)

/-- A loop over a list, every turn of which keeps what holds of the state. -/
theorem yields_forIn {f : α → PUnit → Step (ForInStep PUnit)} {I : Pass → Prop} :
    ∀ (xs : List α) (s : Pass),
      (∀ x ∈ xs, ∀ s, I s → Yields (f x ⟨⟩) s (fun r s' => r = .yield ⟨⟩ ∧ I s') E) →
      I s → Yields (forIn xs PUnit.unit f) s (fun _ s' => I s') E
  | [], s, _, h => by
    rw [List.forIn_nil, yields_pure]
    exact h
  | x :: xs, s, hstep, h => by
    rw [List.forIn_cons]
    refine (hstep x List.mem_cons_self s h).bind ?_
    rintro _ s' ⟨rfl, h⟩
    exact yields_forIn xs s' (fun y hy => hstep y (List.mem_cons_of_mem x hy)) h

/-! ### Looking at and changing the focus -/

@[simp] theorem yields_focus {R : Tree → Pass → Prop} : Yields focus s R E ↔ R s.focus s := Iff.rfl

@[simp] theorem yields_setFocus {R : Unit → Pass → Prop} {t : Tree} :
    Yields (setFocus t) s R E ↔ R () { s with focus := t } := Iff.rfl

@[simp] theorem yields_plain {R : Json → Pass → Prop} {t : Tree} :
    Yields (plain t) s R E ↔ R (t.expand s.parts) s := Iff.rfl

@[simp] theorem yields_place {R : Tree → Pass → Prop} {key : String} :
    Yields (place key) s R E ↔ EndsIn ((layer s.focus).require key) (R · s) E := by
  unfold place
  rw [yields_bind, yields_focus, yields_lift]

@[simp] theorem yields_plainField {R : Json → Pass → Prop} {key : String} :
    Yields (plainField key) s R E ↔ R ((s.focus.field key).expand s.parts) s := Iff.rfl

@[simp] theorem yields_mark {R : Unit → Pass → Prop} :
    Yields mark s R E ↔ R () { s with focus := s.focus.mark } := Iff.rfl

@[simp] theorem yields_setField {R : Unit → Pass → Prop} {key : String} {t : Tree} :
    Yields (setField key t) s R E ↔ R () { s with focus := s.focus.setField key t } := Iff.rfl

theorem yields_changeList {R : Unit → Pass → Prop} {e : Fault} {f : List Tree → List Tree}
    (hlist : ∀ items, s.focus = .arr items → R () { s with focus := .arr (f items) }) (he : E e) :
    Yields (changeList e f) s R E := by
  unfold changeList
  rw [yields_bind, yields_focus]
  split
  · next h => exact yields_setFocus.2 (hlist _ h)
  · exact yields_throw.2 he

theorem yields_changeList_arr {R : Unit → Pass → Prop} {e : Fault} {f : List Tree → List Tree} {items : List Tree}
    (hfocus : s.focus = .arr items) : Yields (changeList e f) s R E ↔ R () { s with focus := .arr (f items) } := by
  unfold changeList
  rw [yields_bind, yields_focus, hfocus, yields_setFocus]

theorem yields_resolve {R : Tree → Pass → Prop} {t : Tree} (ht : t.isShared = false) : Yields (resolve t) s R E ↔ R t s := by
  cases t with
  | shared k => cases ht
  | _ => rfl

theorem yields_child {R : Tree → Pass → Prop} {key : String} {seen : Bool} {fs : Fields Tree}
    (hfocus : s.focus = .obj seen fs) (hmissing : Fields.get? key fs = none → E (.missing (.str key)))
    (h : ∀ t, Fields.get? key fs = some t → t.isShared = false ∧ R t s) : Yields (child key) s R E := by
  unfold child
  rw [yields_bind, yields_place, hfocus, layer_obj, Layer.require]
  cases ht : Fields.get? key fs with
  | none => exact hmissing ht
  | some t => exact (yields_resolve (h t ht).1).2 (h t ht).2

/-- The field under a key, where one is there that is not null. -/
theorem yields_child? {R : Option Tree → Pass → Prop} {key : String} {seen : Bool} {fs : Fields Tree}
    (hfocus : s.focus = .obj seen fs) (hnone : Fields.get? key fs = none ∨ Fields.get? key fs = some .null → R none s)
    (hsome : ∀ t, Fields.get? key fs = some t → t ≠ .null → t.isShared = false ∧ R (some t) s) :
    Yields (child? key) s R E := by
  unfold child?
  rw [yields_bind, yields_focus, hfocus]
  cases ht : Fields.get? key fs with
  | none => simpa [ht] using hnone (.inl ht)
  | some t =>
    by_cases hnull : t = .null
    · subst hnull
      simpa [ht] using hnone (.inr ht)
    · obtain ⟨hshared, hR⟩ := hsome t ht hnull
      cases t with
      | shared k => cases hshared
      | null => exact absurd rfl hnull
      | _ => simpa [ht, resolve] using hR

/-! ### Bookkeeping -/

@[simp] theorem yields_withQueue {R : α × Queue → Pass → Prop} {allows : Bool} {act : Step α} :
    Yields (withQueue allows act) s R E ↔
      Yields act { s with queue := .empty allows } (fun a s' => R (a, s'.queue) { s' with queue := s.queue }) E := by
  have heffect : (withQueue allows act).effect s =
      ((act.effect { s with queue := .empty allows }).1.map (·, (act.effect { s with queue := .empty allows }).2.queue),
        { (act.effect { s with queue := .empty allows }).2 with queue := s.queue }) := rfl
  unfold Yields
  rw [heffect]
  rcases act.effect { s with queue := .empty allows } with ⟨r, s'⟩
  cases r <;> rfl

@[simp] theorem yields_quietly {act : Step α} :
    Yields (quietly act) s Q E ↔
      Yields act { s with queue := .empty false } (fun a s' => Q a { s' with queue := s.queue }) E := by
  unfold quietly
  rw [yields_bind, yields_withQueue]
  rfl

@[simp] theorem yields_inClass {name : Json} {act : Step α} :
    Yields (inClass name act) s Q E ↔
      Yields act { s with classes := name :: s.classes } (fun a s' => Q a { s' with classes := s.classes }) E := Iff.rfl

@[simp] theorem yields_queueBefore {R : Unit → Pass → Prop} {t : Tree} :
    Yields (queueBefore t) s R E ↔ R () { s with queue := { s.queue with before := s.queue.before ++ [t] } } := Iff.rfl

@[simp] theorem yields_queueAfter {R : Unit → Pass → Prop} {t : Tree} :
    Yields (queueAfter t) s R E ↔ R () { s with queue := { s.queue with after := s.queue.after ++ [t] } } := Iff.rfl

/-- What holds of all that is queued, one more before the statement included. -/
theorem Queue.forall_before {P : Tree → Prop} {q : Queue} {t : Tree} (h : ∀ u ∈ q.before ++ q.after, P u) (ht : P t) :
    ∀ u ∈ (q.before ++ [t]) ++ q.after, P u := by
  simp only [List.forall_mem_append, List.forall_mem_singleton] at h ⊢
  exact ⟨⟨h.1, ht⟩, h.2⟩

/-- What holds of all that is queued, one more after the statement included. -/
theorem Queue.forall_after {P : Tree → Prop} {q : Queue} {t : Tree} (h : ∀ u ∈ q.before ++ q.after, P u) (ht : P t) :
    ∀ u ∈ q.before ++ (q.after ++ [t]), P u := by
  simp only [List.forall_mem_append, List.forall_mem_singleton] at h ⊢
  exact ⟨h.1, h.2, ht⟩

@[simp] theorem yields_freshNumber {R : Nat → Pass → Prop} :
    Yields freshNumber s R E ↔ R (s.counter + 1) { s with counter := s.counter + 1 } := Iff.rfl

/-! ### Parts -/

theorem effect_ofEffect (f : Pass → Except Fault α × Pass) (s : Pass) : (ofEffect f).effect s = f s := rfl

/-- A step on a field that is not there ends as the look at it. -/
theorem effect_inField_error {key : String} {e : Fault} (act : Step α) (h : (layer s.focus).require key = .error e) :
    (inField key act).effect s = (.error e, s) := by
  rw [inField, effect_ofEffect]
  simp only [h]

/-- A step on a field that is there. -/
theorem effect_inField_ok {key : String} {t : Tree} (act : Step α) (h : (layer s.focus).require key = .ok t) :
    (inField key act).effect s = ((within act t s).1.1,
      { (within act t s).2 with focus := (within act t s).2.focus.setField key (within act t s).1.2 }) := by
  rw [inField, effect_ofEffect]
  simp only [h]

theorem effect_inField {key : String} {seen : Bool} {fs : Fields Tree} {t : Tree} (act : Step α)
    (hfocus : s.focus = .obj seen fs) (ht : Fields.get? key fs = some t) (hshared : t.isShared = false) :
    (inField key act).effect s =
      ((act.effect { s with focus := t }).1,
        { (act.effect { s with focus := t }).2 with
          focus := .obj seen (Fields.set key (act.effect { s with focus := t }).2.focus fs) }) := by
  have hrequire : (layer s.focus).require key = .ok t := by rw [hfocus, layer_obj, Layer.require_of_get? ht]
  rw [effect_inField_ok act hrequire, within_of_not_shared act s hshared, hfocus]
  rfl

/-- A step on a field of an object, whose value is no shared part. -/
theorem yields_inField {key : String} {act : Step α} {seen : Bool} {fs : Fields Tree} (hfocus : s.focus = .obj seen fs)
    (hmissing : Fields.get? key fs = none → E (.missing (.str key)))
    (h : ∀ t, Fields.get? key fs = some t → t.isShared = false ∧
      Yields act { s with focus := t } (fun a s' => Q a { s' with focus := .obj seen (Fields.set key s'.focus fs) }) E) :
    Yields (inField key act) s Q E := by
  cases ht : Fields.get? key fs with
  | none =>
    have hrequire : (layer s.focus).require key = .error (.missing (.str key)) := by
      rw [hfocus, layer_obj, Layer.require, ht]
    rw [Yields, effect_inField_error act hrequire]
    exact hmissing ht
  | some t =>
    obtain ⟨hshared, hact⟩ := h t ht
    rw [Yields, effect_inField act hfocus ht hshared]
    exact hact

/-- How a loop over values goes on after the first one. -/
theorem withinEach_cons (act : Step α) (s : Pass) {t : Tree} (ts : List Tree) (hshared : t.isShared = false) :
    withinEach act (t :: ts) s =
      match act.effect { s with focus := t } with
      | (.error fault, s') => ((.error fault, s'.focus :: ts), { s' with focus := s.focus })
      | (.ok a, s') =>
        (((withinEach act ts { s' with focus := s.focus }).1.1.map (a :: ·),
          s'.focus :: (withinEach act ts { s' with focus := s.focus }).1.2),
          (withinEach act ts { s' with focus := s.focus }).2) := by
  rw [withinEach, within_of_not_shared act s hshared]
  rcases act.effect { s with focus := t } with ⟨r, s'⟩
  cases r <;> rfl

/-- Steps on values in order, each of which keeps what holds of the state beside the focus. -/
theorem yields_withinEach {act : Step α} {S : Pass → Prop} {R : Tree → Tree → Prop} {A : α → Prop}
    (hfree : ∀ s t, S s → S { s with focus := t }) :
    ∀ (ts : List Tree) (s : Pass), S s →
      (∀ t ∈ ts, t.isShared = false ∧ ∀ s, S s → s.focus = t →
        Yields act s (fun a s' => S s' ∧ R t s'.focus ∧ A a) E) →
      EndsIn (withinEach act ts s).1.1
        (fun answers => S (withinEach act ts s).2 ∧ List.Forall₂ R ts (withinEach act ts s).1.2 ∧ (∀ a ∈ answers, A a) ∧
          answers.length = ts.length) E
  | [], s, hs, _ => ⟨hs, .nil, by simp, rfl⟩
  | t :: ts, s, hs, hact => by
    obtain ⟨hshared, htact⟩ := hact t List.mem_cons_self
    have hfirst := htact { s with focus := t } (hfree s t hs) rfl
    rw [withinEach_cons act s ts hshared]
    unfold Yields at hfirst
    rcases hrun : act.effect { s with focus := t } with ⟨r, s'⟩
    rw [hrun] at hfirst
    cases r with
    | error e => exact hfirst
    | ok a =>
      obtain ⟨hs', hR, hA⟩ : S s' ∧ R t s'.focus ∧ A a := hfirst
      have hrest := yields_withinEach hfree ts { s' with focus := s.focus } (hfree s' _ hs') fun u hu =>
        hact u (List.mem_cons_of_mem t hu)
      simp only
      rcases hrun : withinEach act ts { s' with focus := s.focus } with ⟨⟨r, us⟩, s''⟩
      rw [hrun] at hrest
      cases r with
      | error e => exact hrest
      | ok answers =>
        obtain ⟨hs'', hRs, hAs, hlen⟩ : S s'' ∧ List.Forall₂ R ts us ∧ (∀ a ∈ answers, A a) ∧
          answers.length = ts.length := hrest
        exact ⟨hs'', .cons hR hRs, List.forall_mem_cons.2 ⟨hA, hAs⟩, congrArg (· + 1) hlen⟩

theorem effect_eachItem {ts : List Tree} (act : Step α) (hfocus : s.focus = .arr ts)
    (hkept : (withinEach act ts s).2.focus = s.focus) :
    (eachItem act).effect s =
      ((withinEach act ts s).1.1, { (withinEach act ts s).2 with focus := .arr (withinEach act ts s).1.2 }) := by
  rw [eachItem, effect_ofEffect]
  simp only [hfocus, layer_arr, Layer.elements_arr]
  rw [hfocus] at hkept
  rcases hrun : withinEach act ts s with ⟨⟨r, us⟩, s'⟩
  rw [hrun] at hkept
  simp only [show s'.focus = .arr ts from hkept]

/-- Working on values in order leaves the focus alone. -/
theorem focus_withinEach (act : Step α) : ∀ (ts : List Tree) (s : Pass), (withinEach act ts s).2.focus = s.focus
  | [], _ => rfl
  | t :: ts, s => by
    have hwithin : (within act t s).2.focus = s.focus := by cases t <;> rfl
    rw [withinEach]
    rcases hrun : within act t s with ⟨⟨r, u⟩, s'⟩
    rw [hrun] at hwithin
    cases r with
    | error e => exact hwithin
    | ok a => exact (focus_withinEach act ts s').trans hwithin

/-- A step on each item of a list. -/
theorem yields_eachItem {act : Step α} {S : Pass → Prop} {R : Tree → Tree → Prop} {A : α → Prop} {ts : List Tree}
    (hfree : ∀ s t, S s → S { s with focus := t }) (hfocus : s.focus = .arr ts) (hs : S s)
    (hact : ∀ t ∈ ts, t.isShared = false ∧ ∀ s, S s → s.focus = t →
      Yields act s (fun a s' => S s' ∧ R t s'.focus ∧ A a) E) :
    Yields (eachItem act) s (fun answers s' => S s' ∧
      (∃ us, s'.focus = .arr us ∧ List.Forall₂ R ts us) ∧ (∀ a ∈ answers, A a) ∧ answers.length = ts.length) E := by
  rw [Yields, effect_eachItem act hfocus (focus_withinEach act ts s)]
  refine (yields_withinEach hfree ts s hs hact).mono ?_
  rintro answers ⟨hs', hRs, hAs, hlen⟩
  exact ⟨hfree _ _ hs', ⟨_, rfl, hRs⟩, hAs, hlen⟩

/-- A step on each element of a value that is no list: the value stays what it is. -/
theorem yields_eachItem_other {act : Step α} {S : Pass → Prop} {A : α → Prop}
    (hfree : ∀ s t, S s → S { s with focus := t }) (hfocus : ∀ ts, s.focus ≠ .arr ts) (hs : S s)
    (helements : EndsIn (layer s.focus).elements (fun ts => ∀ t ∈ ts, t.isShared = false ∧ ∀ s, S s → s.focus = t →
      Yields act s (fun a s' => S s' ∧ A a) E) E) :
    Yields (eachItem act) s (fun answers s' => S s' ∧ s'.focus = s.focus ∧ ∀ a ∈ answers, A a) E := by
  cases hts : (layer s.focus).elements with
  | error e =>
    have heffect : (eachItem act).effect s = (.error e, s) := by
      rw [eachItem, effect_ofEffect]
      simp only [hts]
    rw [hts] at helements
    rw [Yields, heffect]
    exact helements
  | ok ts =>
    rw [hts] at helements
    have hkept := focus_withinEach act ts s
    have heffect : (eachItem act).effect s = ((withinEach act ts s).1.1, (withinEach act ts s).2) := by
      rw [eachItem, effect_ofEffect]
      simp only [hts]
      split
      · next us h => exact absurd (hkept ▸ h) (hfocus us)
      · rfl
    rw [Yields, heffect]
    refine (yields_withinEach (R := fun _ _ => True) (A := A) hfree ts s hs fun t ht => ?_).mono ?_
    · exact ⟨(helements t ht).1, fun s hs hf => ((helements t ht).2 s hs hf).mono fun a s' h => ⟨h.1, trivial, h.2⟩⟩
    · exact fun answers h => ⟨h.1, hkept, h.2.2.1⟩

end Step

end ScriptTrace
