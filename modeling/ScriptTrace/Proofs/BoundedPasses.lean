import ScriptTrace.Proofs.PrintingFaults

/-!
# Passes within a depth

A pass over a tree of any form meets no more nodes one below the other than a bound tells. What a visitor may
assume of a value, and what it leaves of one, is said here, with what follows for the steps on the fields of a node
that is worked on.

* `Tree.Within` : a value within a depth, the conditions in which can be shown;
* `Tree.Left` : what a visit leaves of a value;
* `Visitor.Bounded` : a visitor for values within a depth;
* `Steady` : what is kept of the fields of a node while they are visited;
* `Open` : the states of a pass in the middle of a node;
* `Open.visitField`, `Open.visitFields`, `Open.statementList` : visits of fields.
-/

namespace ScriptTrace

open Step

/-! ## Values within a depth -/

namespace Tree

/-- Values from which a condition is read alike. -/
structure Alike (t t' : Tree) : Prop where
  node : t'.isNode = t.isNode
  range : t'.field "range" = t.field "range"

theorem Alike.refl (t : Tree) : Alike t t := ⟨rfl, rfl⟩

theorem Alike.trans {t u v : Tree} (h : Alike t u) (h' : Alike u v) : Alike t v :=
  ⟨h'.node.trans h.node, h'.range.trans h.range⟩

/-- What a visit leaves of a value: the value itself, or a node that is marked. -/
def Left (t t' : Tree) : Prop := Alike t t' ∧ (t'.seen = true ∨ t' = t ∧ t.isNode = false)

/-- What visits leave of a value or of the items of a list. -/
def LeftEach (t t' : Tree) : Prop := t' = t ∨ Left t t' ∨ ∃ ts us, t = .arr ts ∧ t' = .arr us ∧ List.Forall₂ Left ts us

theorem Left.of_seen {t : Tree} (h : t.seen = true) : Left t t := ⟨.refl t, .inl h⟩

theorem Left.of_not_node {t : Tree} (h : t.isNode = false) : Left t t := ⟨.refl t, .inr ⟨rfl, h⟩⟩

theorem Left.seen {t t' : Tree} (h : Left t t') (hnode : t'.isNode = true) : t'.seen = true := by
  rcases h.2 with hseen | ⟨rfl, hnot⟩
  · exact hseen
  · rw [hnot] at hnode
    cases hnode

/-- What is neither a node nor unmarked is left alone. -/
theorem left_of_skipped {t : Tree} (h : (!t.isNode || t.seen) = true) : Left t t := by
  rcases Bool.or_eq_true_iff.1 h with hnot | hseen
  · exact .of_not_node (by simpa using hnot)
  · exact .of_seen hseen

theorem LeftEach.alike {t t' : Tree} (h : LeftEach t t') : Alike t t' := by
  rcases h with rfl | h | ⟨ts, us, rfl, rfl, -⟩
  · exact .refl t'
  · exact h.1
  · exact ⟨rfl, rfl⟩

/-- The text of a value shown as a condition is found, or the fault is one of `E`; also once it is visited. -/
def Shown (code : Option String) (E : Fault → Prop) (t : Tree) : Prop :=
  ∀ t', Alike t t' → EndsIn (Node.conditionText t'.bare code) (fun _ => True) E

theorem Shown.alike {code : Option String} {E : Fault → Prop} {t t' : Tree} (h : t.Shown code E) (halike : Alike t t') :
    t'.Shown code E :=
  fun u hu => h u (halike.trans hu)

/-- The fields of a node of a type that are shown as conditions. -/
def conditionKeys : String → List String
  | "IfStatement" => ["test"]
  | "ForStatement" => ["init", "test"]
  | _ => []

/-- The fields that are shown as conditions, from the field that tells the type. -/
def conditions : Option Tree → List String
  | some (.str type) => conditionKeys type
  | _ => []

/-- How many nodes deeper the fields of a node are visited at most. -/
def span : Option Tree → Nat
  | some (.str "BlockStatement") | some (.str "ReturnStatement") => 1
  | _ => 2

/-- A value that is neither a list nor an object. -/
def isAtom : Tree → Bool
  | arr _ | obj _ _ | shared _ => false
  | _ => true

/-- A value that is no marked node, nor a list that holds one. -/
def isFresh : Tree → Bool
  | arr items => items.all fun t => !t.seen
  | t => !t.seen

theorem seen_of_isFresh {t : Tree} (h : t.isFresh = true) : t.seen = false := by
  cases t with
  | arr items => rfl
  | _ => simpa [isFresh] using h

/-- A value without shared parts, and with no more unmarked nodes one below the other than a visitor may meet. -/
inductive Within (code : Option String) (E : Fault → Prop) : Nat → Tree → Prop
  | atom (n : Nat) (t : Tree) (h : t.isAtom = true) : Within code E (n + 1) t
  | marked (n : Nat) (fields : Fields Tree) : Within code E (n + 1) (.obj true fields)
  | items (n : Nat) (ts : List Tree) (h : ∀ t ∈ ts, Within code E (n + 1) t) : Within code E (n + 1) (.arr ts)
  | node (n m : Nat) (fields : Fields Tree) (hspan : n + span (Fields.get? "type" fields) ≤ m)
      (h : ∀ f ∈ fields, Within code E n f.2)
      (hfresh : ∀ f ∈ fields, f.2.isFresh = true)
      (hshown : ∀ key ∈ conditions (Fields.get? "type" fields), ∀ t, Fields.get? key fields = some t →
        t.isNode = true → t.Shown code E) : Within code E m (.obj false fields)

section Within

variable {code : Option String} {E : Fault → Prop} {n m : Nat} {t t' : Tree}

theorem Within.mono (h : Within code E n t) (hle : n ≤ m) : Within code E m t := by
  induction h generalizing m with
  | atom n t h =>
    obtain ⟨k, rfl⟩ : ∃ k, m = k + 1 := ⟨m - 1, by omega⟩
    exact .atom k t h
  | marked n fields =>
    obtain ⟨k, rfl⟩ : ∃ k, m = k + 1 := ⟨m - 1, by omega⟩
    exact .marked k fields
  | items n ts _ ih =>
    obtain ⟨k, rfl⟩ : ∃ k, m = k + 1 := ⟨m - 1, by omega⟩
    exact .items k ts fun t ht => ih t ht hle
  | node n k fields hspan h hfresh hshown => exact .node n m fields (by omega) h hfresh hshown

theorem Within.pos (h : Within code E n t) : 1 ≤ n := by
  cases h with
  | node n m fields hspan =>
    have : 1 ≤ span (Fields.get? "type" fields) := by unfold span; split <;> omega
    omega
  | _ => omega

theorem Within.isShared (h : Within code E n t) : t.isShared = false := by
  cases h with
  | atom n t h => cases t <;> first | rfl | cases h
  | _ => rfl

theorem within_of_seen (hpos : 1 ≤ n) (h : t.seen = true) : Within code E n t := by
  obtain ⟨k, rfl⟩ : ∃ k, n = k + 1 := ⟨n - 1, by omega⟩
  cases t with
  | obj seen fields =>
    cases seen with
    | true => exact .marked k fields
    | false => cases h
  | _ => cases h

theorem within_of_atom (hpos : 1 ≤ n) (h : t.isAtom = true) : Within code E n t := by
  obtain ⟨k, rfl⟩ : ∃ k, n = k + 1 := ⟨n - 1, by omega⟩
  exact .atom k t h

theorem within_arr {ts : List Tree} (hpos : 1 ≤ n) : Within code E n (.arr ts) ↔ ∀ t ∈ ts, Within code E n t := by
  constructor
  · intro h
    cases h with
    | atom _ _ h => cases h
    | items _ _ h => exact h
  · intro h
    obtain ⟨k, rfl⟩ : ∃ k, n = k + 1 := ⟨n - 1, by omega⟩
    exact .items k ts h

theorem Within.left (h : Within code E n t) (hleft : Left t t') : Within code E n t' := by
  rcases hleft.2 with hseen | ⟨rfl, -⟩
  · exact within_of_seen h.pos hseen
  · exact h

theorem Within.leftEach (h : Within code E n t) (hleft : LeftEach t t') : Within code E n t' := by
  rcases hleft with rfl | hleft | ⟨ts, us, rfl, rfl, hall⟩
  · exact h
  · exact h.left hleft
  · have hpos := h.pos
    rw [within_arr hpos] at h ⊢
    intro u hu
    obtain ⟨t, ht, hleft⟩ := exists_of_mem_forall₂ hall u hu
    exact (h t ht).left hleft

end Within

end Tree

open ScriptTrace.Tree

/-! ## Passes and visitors -/

section Passes

variable {code : Option String} {E : Fault → Prop}

/-- A state without shared parts, in which all queued probes are marked. -/
structure Calm (code : Option String) (s : Pass) : Prop where
  parts : s.parts = []
  code : s.code = code
  queue : ∀ t ∈ s.queue.before ++ s.queue.after, t.seen = true

/-- A visitor for values within a depth. -/
def Visitor.Bounded (code : Option String) (E : Fault → Prop) (n : Nat) (visit : Visitor) : Prop :=
  ∀ parent s, Calm code s → Within code E n s.focus →
    Yields (visit parent) s (fun _ s' => Calm code s' ∧ Left s.focus s'.focus) E

/-- What holds of the fields of a node while it is worked on, so that a visitor of depth `n` may visit them. -/
structure Steady (code : Option String) (E : Fault → Prop) (n : Nat) (P : Tree → Prop) : Prop where
  pos : 1 ≤ n
  within : ∀ t, P t → Within code E n t
  left : ∀ t t', P t → LeftEach t t' → P t'
  seen : ∀ t, t.seen = true → P t
  atom : ∀ t, t.isAtom = true → P t
  nil : P (.arr [])
  /-- Items that are left of those of a list, and probes. -/
  items : ∀ ts us, P (.arr ts) → (∀ u ∈ us, u.seen = true ∨ ∃ t ∈ ts, Left t u) → P (.arr us)

theorem Steady.unshared {n : Nat} {P : Tree → Prop} (hP : Steady code E n P) (t : Tree) (h : P t) : t.isShared = false :=
  (hP.within t h).isShared

/-- A value that is within a depth, or a block around statements that are. -/
def Ready (code : Option String) (E : Fault → Prop) (n : Nat) (t : Tree) : Prop :=
  Within code E n t ∨ ∃ t', t = Probe.block [t'] ∧ Within code E n t' ∧ t'.seen = false

theorem within_block {n : Nat} {t : Tree} (h : Within code E n t) (hfresh : t.seen = false) :
    Within code E (n + 1) (Probe.block [t]) := by
  refine .node n (n + 1) _ (Nat.le_refl _) ?_ ?_ nofun
  · simp only [List.forall_mem_cons]
    exact ⟨within_of_atom h.pos rfl, (within_arr h.pos).2 (List.forall_mem_singleton.2 h), nofun⟩
  · simp only [List.forall_mem_cons]
    exact ⟨rfl, by simpa [Tree.isFresh] using hfresh, nofun⟩

/-- Items that are left of those of a list within a depth, and probes. -/
theorem within_items {n : Nat} {ts us : List Tree} (hpos : 1 ≤ n) (h : Within code E n (.arr ts))
    (hleft : ∀ u ∈ us, u.seen = true ∨ ∃ t ∈ ts, Left t u) : Within code E n (.arr us) := by
  rw [within_arr hpos] at h ⊢
  intro u hu
  rcases hleft u hu with hseen | ⟨t, ht, hleft⟩
  · exact within_of_seen hpos hseen
  · exact (h t ht).left hleft

theorem steady_within {n : Nat} (hpos : 1 ≤ n) : Steady code E n (Within code E n) where
  pos := hpos
  within _ h := h
  left _ _ h hleft := h.leftEach hleft
  seen _ h := within_of_seen hpos h
  atom _ h := within_of_atom hpos h
  nil := (within_arr hpos).2 nofun
  items _ _ h hleft := within_items hpos h hleft

theorem steady_ready {n : Nat} (hpos : 1 ≤ n) : Steady code E (n + 1) (Ready code E n) where
  pos := by omega
  within t h := by
    rcases h with h | ⟨t', rfl, h, hfresh⟩
    · exact h.mono (by omega)
    · exact within_block h hfresh
  left t t' h hleft := by
    rcases h with h | ⟨u, rfl, h⟩
    · exact .inl (h.leftEach hleft)
    · rcases hleft with rfl | ⟨-, hseen | ⟨rfl, -⟩⟩ | ⟨ts, us, he, -⟩
      · exact .inr ⟨u, rfl, h⟩
      · exact .inl (within_of_seen hpos hseen)
      · exact .inr ⟨u, rfl, h⟩
      · cases he
  seen _ h := .inl (within_of_seen hpos h)
  atom _ h := .inl (within_of_atom hpos h)
  nil := .inl ((within_arr hpos).2 nofun)
  items ts us h hleft := by
    rcases h with h | ⟨_, he, -⟩
    · exact .inl (within_items hpos h hleft)
    · cases he

/-! ## Nodes in the middle of a pass -/

/-- What is a node is still read alike. -/
def Kept (t t' : Tree) : Prop := t.isNode = true → Alike t t'

/-- A state in the middle of the object `t₀`, all fields of which are in `P`; `X` tells more of them. -/
structure Open (code : Option String) (P : Tree → Prop) (X : Fields Tree → Prop) (t₀ : Tree) (s : Pass) : Prop where
  calm : Calm code s
  focus : ∃ fs, s.focus = .obj t₀.seen fs ∧ (∀ f ∈ fs, P f.2) ∧ X fs
  kept : Kept t₀ s.focus

/-- What is told of the fields does not change when a field is visited. -/
def Stable (X : Fields Tree → Prop) (key : String) : Prop :=
  ∀ fs t t', X fs → Fields.get? key fs = some t → LeftEach t t' → X (Fields.set key t' fs)

/-- The conditions among some fields are shown. -/
def AllShown (code : Option String) (E : Fault → Prop) (keys : List String) (fs : Fields Tree) : Prop :=
  ∀ key ∈ keys, ∀ t, Fields.get? key fs = some t → t.isNode = true → t.Shown code E

/-- A field has not been visited. -/
def FreshAt (key : String) (fs : Fields Tree) : Prop := ∀ t, Fields.get? key fs = some t → t.isFresh = true

/-- A field is not to be visited again. -/
def MarkedAt (key : String) (fs : Fields Tree) : Prop :=
  ∀ t, Fields.get? key fs = some t → t.isNode = true → t.seen = true

theorem stable_markedAt (k key : String) : Stable (MarkedAt k) key := by
  intro fs t t' h hget hleft u hu hnode
  rw [Fields.get?_set] at hu
  split at hu
  · next he =>
    subst he
    cases hu
    rcases hleft with rfl | hleft | ⟨_, _, _, rfl, _⟩
    · exact h _ hget hnode
    · exact hleft.seen hnode
    · cases hnode
  · exact h u hu hnode

theorem stable_true (key : String) : Stable (fun _ => True) key := fun _ _ _ _ _ _ => trivial

theorem Stable.and {X Y : Fields Tree → Prop} {key : String} (hX : Stable X key) (hY : Stable Y key) :
    Stable (fun fs => X fs ∧ Y fs) key :=
  fun fs t t' h hget hleft => ⟨hX fs t t' h.1 hget hleft, hY fs t t' h.2 hget hleft⟩

theorem freshAt_set_of_ne {key k : String} {fs : Fields Tree} {t : Tree} (hne : key ≠ k) (h : FreshAt k fs) :
    FreshAt k (Fields.set key t fs) := by
  intro u hu
  rw [Fields.get?_set, if_neg hne] at hu
  exact h u hu

theorem stable_freshAt {key k : String} (hne : key ≠ k) : Stable (FreshAt k) key :=
  fun _ _ _ h _ _ => freshAt_set_of_ne hne h

theorem allShown_set_of_not_mem {keys : List String} {key : String} {fs : Fields Tree} {t : Tree} (hkey : key ∉ keys)
    (h : AllShown code E keys fs) : AllShown code E keys (Fields.set key t fs) := by
  intro k hk u hu hnode
  have hne : key ≠ k := by
    rintro rfl
    exact hkey hk
  rw [Fields.get?_set, if_neg hne] at hu
  exact h k hk u hu hnode

theorem AllShown.mono {keys keys' : List String} {fs : Fields Tree} (h : AllShown code E keys fs)
    (hsub : ∀ key ∈ keys', key ∈ keys) : AllShown code E keys' fs :=
  fun key hkey => h key (hsub key hkey)

theorem stable_allShown (keys : List String) (key : String) : Stable (AllShown code E keys) key := by
  intro fs t t' h hget hleft k hk u hu hnode
  rw [Fields.get?_set] at hu
  split at hu
  · next he =>
    subst he
    cases hu
    exact (h key hk t hget (hleft.alike.node ▸ hnode)).alike hleft.alike
  · exact h k hk u hu hnode

section Node

variable {n m : Nat} {P : Tree → Prop} {X : Fields Tree → Prop} {t₀ : Tree} {s : Pass} {key : String} {visit : Visitor}
  {Y : Fields Tree → Prop} {α : Type}

/-- A node keeps its range and its type when another field is set. -/
theorem kept_set {seen : Bool} {fs : Fields Tree} (h : Kept t₀ (.obj seen fs)) (hkey : key ≠ "range") (t : Tree) :
    Kept t₀ (.obj seen (Fields.set key t fs)) := by
  refine fun hnode => ⟨?_, ?_⟩
  · have htype : (Fields.get? "type" fs).isSome = true := (h hnode).node.trans hnode
    rw [hnode]
    change (Fields.get? "type" (Fields.set key t fs)).isSome = true
    rw [Fields.get?_set]
    split
    · rfl
    · exact htype
  · rw [← (h hnode).range]
    simp only [Tree.field, Fields.get?_set, if_neg hkey]

/-- Only the value under `key` is new when it is set. -/
theorem forall_mem_set {fs : Fields Tree} {t : Tree} (h : ∀ f ∈ fs, P f.2) (ht : P t) :
    ∀ f ∈ Fields.set key t fs, P f.2 := by
  induction fs with
  | nil => exact List.forall_mem_singleton.2 ht
  | cons f fs ih =>
    obtain ⟨hf, hfs⟩ := List.forall_mem_cons.1 h
    rw [Fields.set]
    split
    · exact List.forall_mem_cons.2 ⟨ht, hfs⟩
    · exact List.forall_mem_cons.2 ⟨hf, ih hfs⟩

theorem Open.set {fs : Fields Tree} {t : Tree} {s' : Pass} (h : Open code P X t₀ s)
    (hkey : key ≠ "range") (hfocus : s.focus = .obj t₀.seen fs) (hs' : Calm code s')
    (hfocus' : s'.focus = .obj t₀.seen (Fields.set key t fs)) (ht : P t) (hX : Y (Fields.set key t fs)) :
    Open code P Y t₀ s' where
  calm := hs'
  focus := by
    obtain ⟨fs', he, hP, -⟩ := h.focus
    cases hfocus.symm.trans he
    exact ⟨_, hfocus', forall_mem_set hP ht, hX⟩
  kept := by
    rw [hfocus']
    exact kept_set (hfocus ▸ h.kept) hkey t

theorem Calm.focus (h : Calm code s) (t : Tree) : Calm code { s with focus := t } := ⟨h.parts, h.code, h.queue⟩

/-- Less is told of the fields. -/
theorem Open.weaken (h : Open code P X t₀ s) (himp : ∀ fs, X fs → Y fs) :
    Open code P Y t₀ s where
  calm := h.calm
  focus := by
    obtain ⟨fs, hfocus, hall, hX⟩ := h.focus
    exact ⟨fs, hfocus, hall, himp fs hX⟩
  kept := h.kept

theorem Open.any (h : Open code P X t₀ s) : Open code P (fun _ => True) t₀ s := h.weaken fun _ _ => trivial

theorem Calm.queueBefore {t : Tree} (h : Calm code s) (ht : t.seen = true) :
    Calm code { s with queue := { s.queue with before := s.queue.before ++ [t] } } where
  parts := h.parts
  code := h.code
  queue := Queue.forall_before h.queue ht

theorem Calm.queueAfter {t : Tree} (h : Calm code s) (ht : t.seen = true) :
    Calm code { s with queue := { s.queue with after := s.queue.after ++ [t] } } where
  parts := h.parts
  code := h.code
  queue := Queue.forall_after h.queue ht

/-- A step on a field, whatever it holds. -/
theorem yields_inField_any {act : Step α} (key : String) (hE : CoversReading E) (hcalm : Calm code s)
    (hact : ∀ t, Yields act { s with focus := t } (fun _ s' => Calm code s') E) :
    Yields (Step.inField key act) s (fun _ s' => Calm code s' ∧ ∃ seen fs t, s.focus = .obj seen fs ∧
      s'.focus = .obj seen (Fields.set key t fs)) E := by
  cases hfocus : s.focus with
  | obj seen fs =>
    cases ht : Fields.get? key fs with
    | none => exact yields_inField hfocus (fun _ => hE.missing _) fun t h => by rw [ht] at h; cases h
    | some t =>
      cases hshared : t.isShared with
      | false =>
        refine yields_inField hfocus (fun _ => hE.missing _) fun u hu => ?_
        cases ht.symm.trans hu
        exact ⟨hshared, (hact t).mono fun _ s' h => ⟨h.focus _, seen, fs, _, rfl, rfl⟩⟩
      | true =>
        -- there are no shared parts, so the step works on nothing
        obtain ⟨k, rfl⟩ : ∃ k, t = .shared k := by cases t <;> first | exact ⟨_, rfl⟩ | cases hshared
        have heffect : (Step.inField key act).effect s = ((act.effect { s with focus := .null }).1,
            { (act.effect { s with focus := .null }).2 with
              focus := .obj seen (Fields.set key (.shared k) fs)
              parts := (act.effect { s with focus := .null }).2.parts.set k (act.effect { s with focus := .null }).2.focus }) := by
          rw [effect_inField_ok act (t := .shared k) (by rw [hfocus, layer_obj, Layer.require_of_get? ht])]
          simp only [within, hcalm.parts, List.getD_nil, hfocus]
          rfl
        rw [Yields, heffect]
        refine EndsIn.mono (hact .null) fun a h => ⟨⟨?_, h.code, h.queue⟩, seen, fs, _, rfl, rfl⟩
        rw [h.parts, List.set_nil]
  | _ =>
    rw [Yields, effect_inField_error act (e := .wrongKind) (by rw [hfocus]; rfl)]
    exact hE.wrongKind

/-- A step on a field of the node. -/
theorem Open.inField {act : Step α} {Q : α → Prop} (key : String) (hE : CoversReading E) (hP : ∀ t, P t → t.isShared = false)
    (h : Open code P X t₀ s) (hkey : key ≠ "range")
    (hact : ∀ fs t, s.focus = .obj t₀.seen fs → Fields.get? key fs = some t → X fs → P t →
      Yields act { s with focus := t }
        (fun a s' => Calm code s' ∧ P s'.focus ∧ Y (Fields.set key s'.focus fs) ∧ Q a) E) :
    Yields (Step.inField key act) s (fun a s' => Open code P Y t₀ s' ∧ Q a) E := by
  obtain ⟨fs, hfocus, hall, hX⟩ := h.focus
  refine yields_inField hfocus (fun _ => hE.missing _) fun t ht => ?_
  have hPt : P t := hall _ (Fields.mem_of_get? ht)
  refine ⟨hP t hPt, (hact fs t hfocus ht hX hPt).mono ?_⟩
  rintro a s' ⟨hcalm, hPs', hX', hQ⟩
  exact ⟨h.set hkey hfocus (hcalm.focus _) rfl hPs' hX', hQ⟩

/-- A field of the node is set. -/
theorem Open.setField {t : Tree} (key : String) (h : Open code P X t₀ s) (hkey : key ≠ "range")
    (ht : P t) (hX : ∀ fs, X fs → Y (Fields.set key t fs)) :
    Yields (Step.setField key t) s (fun _ s' => Open code P Y t₀ s') E := by
  obtain ⟨fs, hfocus, -, hX'⟩ := h.focus
  rw [yields_setField]
  exact h.set hkey hfocus (h.calm.focus _) (by rw [hfocus]; rfl) ht (hX fs hX')

/-- A field of the node is looked up. -/
theorem Open.place {R : Tree → Pass → Prop} (key : String) (hE : CoversReading E) (h : Open code P X t₀ s)
    (hR : ∀ fs t, s.focus = .obj t₀.seen fs → Fields.get? key fs = some t → X fs → P t → R t s) :
    Yields (Step.place key) s R E := by
  obtain ⟨fs, hfocus, hall, hX⟩ := h.focus
  rw [yields_place, hfocus, layer_obj, Layer.require]
  cases ht : Fields.get? key fs with
  | none => exact hE.missing _
  | some t => exact hR fs t hfocus ht hX (hall _ (Fields.mem_of_get? ht))

theorem Open.child {R : Tree → Pass → Prop} (key : String) (hE : CoversReading E) (hP : Steady code E n P) (h : Open code P X t₀ s)
    (hR : ∀ fs t, s.focus = .obj t₀.seen fs → Fields.get? key fs = some t → X fs → P t → R t s) :
    Yields (Step.child key) s R E := by
  obtain ⟨fs, hfocus, hall, hX⟩ := h.focus
  refine yields_child hfocus (fun _ => hE.missing _) fun t ht => ?_
  have hPt : P t := hall _ (Fields.mem_of_get? ht)
  exact ⟨(hP.within t hPt).isShared, hR fs t hfocus ht hX hPt⟩

theorem Open.child? {R : Option Tree → Pass → Prop} (key : String) (hP : Steady code E n P) (h : Open code P X t₀ s)
    (hnone : ∀ fs, s.focus = .obj t₀.seen fs → Fields.get? key fs = none ∨ Fields.get? key fs = some .null → R none s)
    (hsome : ∀ fs t, s.focus = .obj t₀.seen fs → Fields.get? key fs = some t → X fs → P t → R (some t) s) :
    Yields (Step.child? key) s R E := by
  obtain ⟨fs, hfocus, hall, hX⟩ := h.focus
  refine yields_child? hfocus (hnone fs hfocus) fun t ht _ => ?_
  have hPt : P t := hall _ (Fields.mem_of_get? ht)
  exact ⟨(hP.within t hPt).isShared, hsome fs t hfocus ht hX hPt⟩

theorem Open.flag {R : Bool → Pass → Prop} (key : String) (hP : Steady code E n P) (h : Open code P X t₀ s)
    (hR : ∀ b, R b s) : Yields (Step.flag key) s R E := by
  unfold Step.flag
  rw [yields_bind]
  exact h.child? key hP (fun _ _ _ => hR _) fun _ _ _ _ _ _ => hR _

theorem yields_line {R : Json → Pass → Prop} (hE : CoversReading E) (hR : ∀ line, R line s) : Yields line s R E := by
  unfold line position
  rw [yields_bind, yields_bind, yields_focus]
  split
  · exact yields_plainField.2 (yields_lift.2 ((ends_lineOf hE _).mono fun _ _ => hR _))
  · exact yields_pure.2 (yields_lift.2 ((ends_lineOf hE _).mono fun _ _ => hR _))

theorem yields_endLine {R : Json → Pass → Prop} (hE : CoversReading E) (hR : ∀ line, R line s) : Yields endLine s R E := by
  unfold endLine position
  rw [yields_bind, yields_bind, yields_focus]
  split
  · exact yields_plainField.2 (yields_lift.2 ((ends_endLineOf hE _).mono fun _ _ => hR _))
  · exact yields_pure.2 (yields_lift.2 ((ends_endLineOf hE _).mono fun _ _ => hR _))

/-! ## Steps on each element -/

/-- A step on each element of a value: the items of a list, or the strings that a loop over another value meets. -/
theorem yields_each {act : Step α} {G : Tree → Prop} {R : Tree → Tree → Prop} {A : α → Prop} (hE : CoversReading E)
    (hstring : ∀ text, G (.str text))
    (hact : ∀ s, Calm code s → G s.focus → Yields act s (fun a s' => Calm code s' ∧ R s.focus s'.focus ∧ A a) E)
    (hcalm : Calm code s) (hitems : ∀ ts, s.focus = .arr ts → ∀ t ∈ ts, t.isShared = false ∧ G t) :
    Yields (eachItem act) s (fun answers s' => Calm code s' ∧ (∀ a ∈ answers, A a) ∧
      ((∃ ts us, s.focus = .arr ts ∧ s'.focus = .arr us ∧ List.Forall₂ R ts us) ∨
        ((∀ ts, s.focus ≠ .arr ts) ∧ s'.focus = s.focus))) E := by
  by_cases hlist : ∃ ts, s.focus = .arr ts
  · obtain ⟨ts, hfocus⟩ := hlist
    refine (yields_eachItem (R := R) (A := A) (fun s t (h : Calm code s) => h.focus t) hfocus hcalm fun t ht => ?_).mono ?_
    · obtain ⟨hshared, hG⟩ := hitems ts hfocus t ht
      exact ⟨hshared, fun s hs hf => hf ▸ hact s hs (hf ▸ hG)⟩
    · rintro answers s' ⟨hs', ⟨us, hus, hall⟩, hA, -⟩
      exact ⟨hs', hA, .inl ⟨ts, us, hfocus, hus, hall⟩⟩
  · have hother (ts : List Tree) (hfocus : s.focus = .arr ts) : False := hlist ⟨ts, hfocus⟩
    refine (yields_eachItem_other (A := A) (fun s t (h : Calm code s) => h.focus t) hother hcalm
      ((ends_elements hE).mono fun ts hts t ht => ?_)).mono fun answers s' h => ⟨h.1, h.2.2, .inr ⟨hother, h.2.1⟩⟩
    obtain ⟨text, rfl⟩ : ∃ text, t = .str text := by
      rcases hts t ht with hl | hs
      · cases hf : s.focus with
        | arr us => exact (hother us hf).elim
        | _ => rw [hf] at hl; cases hl
      · exact hs
    refine ⟨rfl, fun s hs hf => (hact s hs (hf ▸ hstring text)).mono fun a s' h => ⟨h.1, h.2.2⟩⟩

/-! ## Visiting fields -/

section Visits

variable (hE : CoversReading E) (hP : Steady code E n P) (hvisit : visit.Bounded code E n)

include hE hP hvisit

/-- A visit of a field. -/
theorem Open.visitMarked (key : String) (h : Open code P X t₀ s) (hkey : key ≠ "range") (hX : Stable X key) :
    Yields (Visit.field visit key) s (fun _ s' => Open code P (fun fs => X fs ∧ MarkedAt key fs) t₀ s') E := by
  unfold Visit.field
  rw [yields_bind, yields_focus]
  refine (h.inField (Q := fun _ => True) key hE hP.unshared hkey fun fs t _ hget hXfs hPt => ?_).mono fun _ _ h => h.1
  refine (hvisit _ _ (h.calm.focus t) (hP.within t hPt)).mono fun _ s' ⟨hcalm, hleft⟩ => ?_
  refine ⟨hcalm, hP.left _ _ hPt (.inr (.inl hleft)), ⟨hX fs t _ hXfs hget (.inr (.inl hleft)), ?_⟩, trivial⟩
  intro u hu hnode
  rw [Fields.get?_set, if_pos rfl] at hu
  cases hu
  exact hleft.seen hnode

theorem Open.visitField (key : String) (h : Open code P X t₀ s) (hkey : key ≠ "range") (hX : Stable X key) :
    Yields (Visit.field visit key) s (fun _ s' => Open code P X t₀ s') E :=
  (h.visitMarked hE hP hvisit key hkey hX).mono fun _ _ h => h.weaken fun _ => And.left

/-- A field that is visited if it is there, and what comes after. -/
theorem Open.visitOptional {R : α → Pass → Prop} {f : Unit → Step α} (key : String) (h : Open code P X t₀ s)
    (hkey : key ≠ "range") (hX : Stable X key) (hf : ∀ s', Open code P X t₀ s' → Yields (f ()) s' R E) :
    Yields (Step.child? key) s
      (fun o s' => Yields (if o.isSome = true then Visit.field visit key >>= f else f ()) s' R E) E := by
  refine h.child? key hP (fun _ _ _ => hf s h) fun _ t _ _ _ _ => ?_
  exact (h.visitField hE hP hvisit key hkey hX).bind fun _ s' h => hf s' h

/-- Nodes in headers are visited with a queue of their own. -/
theorem Open.visitHeader (key : String) (h : Open code P X t₀ s) (hkey : key ≠ "range") (hX : Stable X key) :
    Yields (Visit.headerField visit key) s (fun _ s' => Open code P (fun fs => X fs ∧ MarkedAt key fs) t₀ s') E := by
  have hmarked {fs : Fields Tree} (hfocus : s.focus = .obj t₀.seen fs)
      (hget : ∀ t, Fields.get? key fs = some t → t.isNode = false) :
      Open code P (fun fs => X fs ∧ MarkedAt key fs) t₀ s := by
    refine ⟨h.calm, ?_, h.kept⟩
    obtain ⟨fs', hfocus', hall, hX⟩ := h.focus
    cases hfocus.symm.trans hfocus'
    exact ⟨fs, hfocus, hall, hX, fun t ht hnode => by rw [hget t ht] at hnode; cases hnode⟩
  unfold Visit.headerField
  rw [yields_bind]
  refine h.child? key hP (fun fs hfocus hnone => yields_pure.2 (hmarked hfocus fun t ht => ?_))
    fun fs t hfocus hget _ _ => yields_ite (fun _ => ?_) fun hnot => yields_pure.2 (hmarked hfocus fun u hu => ?_)
  · rcases hnone with hnone | hnone <;> rw [hnone] at ht <;> cases ht
    rfl
  rotate_left
  · cases hget.symm.trans hu
    simpa using hnot
  rw [yields_quietly]
  have hquiet : Open code P X t₀ { s with queue := .empty false } :=
    ⟨⟨h.calm.parts, h.calm.code, nofun⟩, h.focus, h.kept⟩
  refine (hquiet.visitMarked hE hP hvisit key hkey hX).mono fun _ s' h' => ?_
  exact ⟨⟨h'.calm.parts, h'.calm.code, h.calm.queue⟩, h'.focus, h'.kept⟩

omit hP in
/-- The items of a list are visited. -/
theorem yields_visitEach (parent : Option Tree) (hcalm : Calm code s) (hwithin : Within code E n s.focus) :
    Yields (eachItem (visit parent)) s (fun _ s' => Calm code s' ∧ LeftEach s.focus s'.focus) E := by
  refine (yields_each (G := Within code E n) (R := Left) (A := fun _ => True) hE
    (fun _ => within_of_atom hwithin.pos rfl) (fun s hs hw => ?_) hcalm fun ts hts t ht => ?_).mono ?_
  · exact (hvisit parent s hs hw).mono fun _ s' h => ⟨h.1, h.2, trivial⟩
  · have ht' := (within_arr hwithin.pos).1 (hts ▸ hwithin) t ht
    exact ⟨ht'.isShared, ht'⟩
  · rintro _ s' ⟨hs', -, h | h⟩
    · exact ⟨hs', .inr (.inr h)⟩
    · exact ⟨hs', .inl h.2⟩

omit hP in
/-- A value, or each item of a list. -/
theorem yields_valueOrItems (parent : Tree) (hcalm : Calm code s) (hwithin : Within code E n s.focus) :
    Yields (Visit.valueOrItems visit parent) s (fun _ s' => Calm code s' ∧ LeftEach s.focus s'.focus) E := by
  unfold Visit.valueOrItems
  rw [yields_bind, yields_focus]
  split
  · exact yields_discard.2 (yields_visitEach hE hvisit (some parent) hcalm hwithin)
  · exact (hvisit _ s hcalm hwithin).mono fun _ s' h => ⟨h.1, .inr (.inl h.2)⟩

/-- All fields in their order. -/
theorem Open.visitFields (h : Open code P (fun _ => True) t₀ s) :
    Yields (Visit.fields visit) s (fun _ s' => Open code P (fun _ => True) t₀ s') E := by
  unfold Visit.fields
  rw [yields_bind, yields_focus]
  refine (yields_forIn _ s (fun key _ s h => ?_) h).bind fun _ _ h => yields_pure.2 h
  refine yields_ite (fun _ => yields_pure.2 ⟨rfl, h⟩) fun hkey => ?_
  have hrange : key ≠ "range" := by
    rintro rfl
    exact hkey rfl
  rw [yields_bind, yields_focus]
  refine (h.inField (Q := fun _ => True) key hE hP.unshared hrange fun fs t _ _ _ hPt => ?_).bind fun _ _ h => yields_pure.2 ⟨rfl, h.1⟩
  refine (yields_valueOrItems hE hvisit _ (h.calm.focus t) (hP.within t hPt)).mono fun _ s' ⟨hcalm, hleft⟩ => ?_
  exact ⟨hcalm, hP.left _ _ hPt hleft, trivial, trivial⟩

/-! ### Statements -/

omit hP in
/-- A statement is left, with probes to put around it. -/
theorem yields_statement (hcalm : Calm code s) (hwithin : Within code E n s.focus) :
    Yields (Visit.statement visit) s
      (fun q s' => Calm code s' ∧ Left s.focus s'.focus ∧ ∀ t ∈ q.before ++ q.after, t.seen = true) E := by
  unfold Visit.statement
  rw [yields_bind, yields_focus]
  refine yields_ite (fun hor => yields_pure.2 ⟨hcalm, left_of_skipped hor, nofun⟩) fun _ => ?_
  rw [yields_bind, yields_lift]
  refine (ends_hasTypeIn hE _).mono fun safe _ => ?_
  rw [yields_bind, yields_withQueue]
  refine (hvisit none { s with queue := .empty safe } ⟨hcalm.parts, hcalm.code, nofun⟩ hwithin).mono fun _ s' h => ?_
  exact ⟨⟨h.1.parts, h.1.code, hcalm.queue⟩, h.2, h.1.queue⟩

omit hE hP hvisit in
theorem mem_weave {w : Tree} : ∀ {ts : List Tree} {qs : List Queue}, w ∈ Visit.weave ts qs →
    w ∈ ts ∨ ∃ q ∈ qs, w ∈ q.before ++ q.after
  | [], _, h => .inl h
  | _ :: _, [], h => .inl h
  | t :: ts, q :: qs, h => by
    simp only [Visit.weave, List.mem_append, List.mem_cons] at h
    rcases h with h | rfl | h | h
    · exact .inr ⟨q, List.mem_cons_self, List.mem_append_left _ h⟩
    · exact .inl List.mem_cons_self
    · exact .inr ⟨q, List.mem_cons_self, List.mem_append_right _ h⟩
    · rcases mem_weave h with h | ⟨q', hq', h⟩
      · exact .inl (List.mem_cons_of_mem _ h)
      · exact .inr ⟨q', List.mem_cons_of_mem _ hq', h⟩

omit hP in
/-- Statements are left, and answered with probes; where there is no list of statements, none is left. -/
theorem yields_statements (hcalm : Calm code s) (hwithin : Within code E n s.focus) :
    Yields (Visit.statements visit) s (fun woven s' => Calm code s' ∧ LeftEach s.focus s'.focus ∧
      ∀ us, s'.focus = .arr us → ∃ ts, s.focus = .arr ts ∧ ∀ w ∈ woven, w.seen = true ∨ ∃ t ∈ ts, Left t w) E := by
  unfold Visit.statements
  refine (yields_each (G := Within code E n) (R := Left) (A := fun q => ∀ t ∈ q.before ++ q.after, t.seen = true) hE
    (fun _ => within_of_atom hwithin.pos rfl) (fun s hs hw => yields_statement hE hvisit hs hw) hcalm fun ts hts t ht => ?_).bind ?_
  · have ht' := (within_arr hwithin.pos).1 (hts ▸ hwithin) t ht
    exact ⟨ht'.isShared, ht'⟩
  · rintro qs s' ⟨hs', hqs, h⟩
    rw [yields_bind, yields_focus, yields_bind, yields_lift]
    rcases h with ⟨ts, us, hfocus, hus, hall⟩ | ⟨hother, hfocus⟩
    · rw [hus, layer_arr, Layer.elements_arr, ends_ok, yields_pure]
      refine ⟨hs', .inr (.inr ⟨ts, us, hfocus, hus, hall⟩), fun _ _ => ⟨ts, hfocus, fun w hw => ?_⟩⟩
      rcases mem_weave hw with hw | ⟨q, hq, hw⟩
      · exact .inr (exists_of_mem_forall₂ hall w hw)
      · exact .inl (hqs q hq w hw)
    · exact (ends_elements hE).mono fun _ _ =>
        yields_pure.2 ⟨hs', .inl hfocus, fun us hus => (hother us (hfocus ▸ hus)).elim⟩

/-- A list of statements in a field. -/
theorem Open.statementList (key : String) (h : Open code P X t₀ s) (hkey : key ≠ "range")
    (hX : ∀ fs t, X fs → X (Fields.set key t fs)) :
    Yields (Step.inField key (Visit.statementList visit)) s (fun _ s' => Open code P X t₀ s') E := by
  refine (h.inField (Q := fun _ => True) key hE hP.unshared hkey fun fs t _ _ hXfs hPt => ?_).mono fun _ _ h => h.1
  refine (yields_statements hE hvisit (h.calm.focus t) (hP.within t hPt)).bind fun woven s' ⟨hcalm, _, hwoven⟩ => ?_
  refine yields_changeList (fun us hus => ⟨hcalm.focus _, ?_, hX fs _ hXfs, trivial⟩) hE.wrongKind
  obtain ⟨ts, hfocus, hall⟩ := hwoven us hus
  exact hP.items ts woven ((show t = .arr ts from hfocus) ▸ hPt) hall

end Visits

end Node

end Passes

end ScriptTrace
