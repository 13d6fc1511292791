import ScriptTrace.Proofs.BoundedPasses

/-!
# Faults of a pass

A pass over a tree of any form ends, and the faults it can end with are those of reading and, where a condition has
to be printed because its source is not known, those of printing. The bound on the depth is never met: a visitor
for a depth is only ever called on values within this depth.

* `Closed` : the states of a pass at the end of the rule for a node;
* `yields_rule` : every rule ends in such a state, or with a fault that there can be;
* `bounded_visitWith` : the visitor of a depth is one for values within this depth.
-/

namespace ScriptTrace

open Step ScriptTrace.Tree

section Passes

variable {code : Option String} {E : Fault → Prop}

section Node

variable {n m : Nat} {P : Tree → Prop} {X : Fields Tree → Prop} {t₀ : Tree} {s : Pass} {key : String} {visit : Visitor}
  {Y : Fields Tree → Prop} {α : Type}

/-! ## Rules -/

/-- A state at the end of the rule for the node `t₀`. -/
structure Closed (code : Option String) (t₀ : Tree) (s : Pass) : Prop where
  calm : Calm code s
  seen : s.focus.seen = t₀.seen
  kept : Kept t₀ s.focus

theorem Open.closed (h : Open code P X t₀ s) : Closed code t₀ s where
  calm := h.calm
  seen := by
    obtain ⟨fs, hfocus, -⟩ := h.focus
    rw [hfocus]
    rfl
  kept := h.kept

/-- The last step on a field of the node. -/
theorem Open.closeField {act : Step α} (key : String) (hE : CoversReading E) (hP : Steady code E n P) (h : Open code P X t₀ s)
    (hkey : key ≠ "range") (hact : ∀ fs t, s.focus = .obj t₀.seen fs → Fields.get? key fs = some t → X fs → P t →
      Yields act { s with focus := t } (fun _ s' => Calm code s') E) :
    Yields (Step.inField key act) s (fun _ s' => Closed code t₀ s') E := by
  obtain ⟨fs, hfocus, hall, hX⟩ := h.focus
  refine yields_inField hfocus (fun _ => hE.missing _) fun t ht => ?_
  have hPt : P t := hall _ (Fields.mem_of_get? ht)
  refine ⟨(hP.within t hPt).isShared, (hact fs t hfocus ht hX hPt).mono fun a s' hcalm => ?_⟩
  exact ⟨hcalm.focus _, rfl, kept_set (hfocus ▸ h.kept) hkey _⟩

section Rules

variable (hE : CoversReading E) (hP : Steady code E n P) (hvisit : visit.Bounded code E n) (h : Open code P X t₀ s)

include hE hP hvisit h

theorem yields_block : Yields (Visit.block visit) s (fun _ s' => Closed code t₀ s') E :=
  (h.any.statementList hE hP hvisit "body" (by decide) fun _ _ h => h).mono fun _ _ h => h.closed

theorem yields_switchCase : Yields (Visit.switchCase visit) s (fun _ s' => Closed code t₀ s') E := by
  unfold Visit.switchCase
  refine yields_bind.2 (h.any.visitOptional hE hP hvisit "test" (by decide) (stable_true _) fun s' h => ?_)
  exact (h.statementList hE hP hvisit "consequent" (by decide) fun _ _ h => h).mono fun _ _ h => h.closed

theorem yields_member : Yields (Visit.member visit) s (fun _ s' => Closed code t₀ s') E := by
  unfold Visit.member
  have hvalue (s' : Pass) (h : Open code P (fun _ => True) t₀ s') : Yields (Visit.field visit "value") s' (fun _ s' => Closed code t₀ s') E :=
    (h.visitField hE hP hvisit "value" (by decide) (stable_true _)).mono fun _ _ h => h.closed
  refine yields_bind.2 (h.any.flag "computed" hP fun b => yields_when (P := fun s' => Open code P (fun _ => True) t₀ s') ?_ ?_ hvalue)
  · exact fun _ => h.any.visitField hE hP hvisit "key" (by decide) (stable_true _)
  · exact fun _ => h.any

theorem yields_returnStatement : Yields (Visit.returnStatement visit) s (fun _ s' => Closed code t₀ s') E := by
  unfold Visit.returnStatement
  refine yields_bind.2 (h.any.visitOptional hE hP hvisit "argument" (by decide) (stable_true _) fun s' h => ?_)
  refine yields_bind.2 (yields_line hE fun line => yields_bind.2 ?_)
  have hset (argument : Tree) := h.setField (Y := fun _ => True) (E := E) "argument" (by decide)
    (hP.seen (Probe.result line argument) rfl) fun _ _ => trivial
  refine h.child? "argument" hP (fun _ _ _ => ?_) fun _ _ _ _ _ _ => ?_
  · exact (hset _).mono fun _ _ h => h.closed
  · exact yields_bind.2 (h.place "argument" hE fun _ t _ _ _ _ => (hset t).mono fun _ _ h => h.closed)

omit hP h in
/-- The members of the class whose body is in focus. -/
theorem yields_members (hcalm : Calm code s) (hwithin : Within code E n s.focus) (hfresh : s.focus.isFresh = true) :
    Yields (do
      if ← Step.flag "body" then
        let body ← focus
        discard (Step.inField "body" (eachItem (visit (some body))))) s (fun _ s' => Calm code s') E := by
  unfold Step.flag
  rw [yields_bind, yields_bind]
  cases hfocus : s.focus with
  | obj seen fs =>
    have hfields : ∀ key t, Fields.get? key fs = some t → Within code E n t := by
      rw [hfocus] at hwithin hfresh
      cases hwithin with
      | atom _ _ h => cases h
      | marked => cases hfresh
      | node m _ _ hspan h => exact fun key t ht => (h _ (Fields.mem_of_get? ht)).mono (by omega)
    refine yields_child? hfocus (fun _ => yields_pure.2 hcalm) fun t ht _ => ⟨(hfields _ t ht).isShared, ?_⟩
    refine yields_pure.2 (yields_ite (fun _ => ?_) fun _ => yields_pure.2 hcalm)
    rw [yields_bind, yields_focus, yields_discard]
    refine yields_inField hfocus (fun _ => hE.missing _) fun t ht => ⟨(hfields _ t ht).isShared, ?_⟩
    exact (yields_visitEach hE hvisit _ (hcalm.focus t) (hfields _ t ht)).mono fun _ s' h => h.1.focus _
  | _ =>
    unfold Step.child?
    rw [yields_bind, yields_focus, hfocus]
    exact yields_throw.2 hE.unsupported

omit h in
/-- What a class is made of. -/
theorem yields_classParts (name : Json) (h : Open code P (FreshAt "body") t₀ s) :
    Yields (Visit.classParts visit name) s (fun _ s' => Closed code t₀ s') E := by
  unfold Visit.classParts
  refine yields_bind.2 (h.visitOptional hE hP hvisit "superClass" (by decide) (stable_freshAt (by decide)) fun s' h => ?_)
  rw [yields_inClass]
  have hclass : Open code P (FreshAt "body") t₀ { s' with classes := name :: s'.classes } :=
    ⟨⟨h.calm.parts, h.calm.code, h.calm.queue⟩, h.focus, h.kept⟩
  refine (hclass.closeField "body" hE hP (by decide) fun fs t _ ht hfresh hPt => ?_).mono fun _ s'' h => ?_
  · exact yields_members hE hvisit (hclass.calm.focus t) (hP.within t hPt) (hfresh t ht)
  · exact ⟨⟨h.calm.parts, h.calm.code, h.calm.queue⟩, h.seen, h.kept⟩

omit h in
theorem yields_classDeclaration (h : Open code P (FreshAt "body") t₀ s) :
    Yields (Visit.classDeclaration visit) s (fun _ s' => Closed code t₀ s') E := by
  have hrest (name : Json) : Yields (do
      Visit.classParts visit name
      queueBefore (.ofProbe (Probe.declared (← line) name))) s (fun _ s' => Closed code t₀ s') E := by
    refine (yields_classParts hE hP hvisit name h).bind fun _ s' h => yields_bind.2 (yields_line hE fun line => ?_)
    exact yields_queueBefore.2 ⟨h.calm.queueBefore rfl, h.seen, h.kept⟩
  unfold Visit.classDeclaration Visit.className
  rw [yields_bind, yields_bind, yields_plainField]
  refine yields_ite (fun _ => yields_lift.2 ((ends_require hE "name").mono fun name _ => hrest name)) fun _ => ?_
  exact yields_pure.2 (hrest _)

omit hP hvisit h in
/-- The name of a function or class expression. -/
theorem yields_name {R : Json → Pass → Prop} (parent : Option Tree) (hR : ∀ name, R name s) :
    Yields (Visit.name parent) s R E := by
  unfold Visit.name
  rw [yields_bind, yields_focus, yields_bind, yields_plain]
  extract_lets rest
  have hrest (up : Option Json) : Yields (rest up) s R E :=
    yields_bind.2 (yields_get.2 (yields_lift.2 ((ends_functionName hE _ _ up).mono fun name _ => hR name)))
  cases parent with
  | none => exact yields_bind.2 (yields_pure.2 (hrest none))
  | some p => exact yields_bind.2 (yields_map.2 (yields_plain.2 (hrest _)))

omit h in
theorem yields_classExpression (parent : Option Tree) (h : Open code P (FreshAt "body") t₀ s) :
    Yields (Visit.classExpression visit parent) s (fun _ s' => Closed code t₀ s') E := by
  unfold Visit.classExpression
  exact yields_bind.2 (yields_name hE parent fun name => yields_classParts hE hP hvisit name h)

omit h in
theorem yields_namelessClass (parent : Option Tree) (h : Open code P (FreshAt "body") t₀ s) :
    Yields (Visit.namelessClass visit parent) s (fun _ s' => Closed code t₀ s') E := by
  cases parent with
  | none => exact yields_classParts hE hP hvisit .null h
  | some p => exact yields_bind.2 (yields_plain.2 (yields_classParts hE hP hvisit _ h))

/-! ### Declarations and assignments -/

omit h in
theorem yields_declarator (h : Open code P X t₀ s) : Yields (Visit.declarator visit) s (fun _ s' => Calm code s') E := by
  unfold Visit.declarator
  refine yields_bind.2 (h.any.visitOptional hE hP hvisit "init" (by decide) (stable_true _) fun s' h => ?_)
  rw [yields_bind, yields_get]
  refine yields_ite (fun _ => ?_) fun _ => yields_pure.2 h.calm
  refine yields_bind.2 (h.place "id" hE fun _ t _ _ _ _ => ?_)
  rw [yields_bind, yields_plain, yields_bind, yields_lift]
  refine (ends_bindingNames hE _).mono fun names _ => ?_
  refine (yields_forIn (I := Calm code) names s' (fun name _ s hs => ?_) h.calm).bind fun _ _ h => yields_pure.2 h
  refine yields_bind.2 (yields_line hE fun line => yields_bind.2 (yields_queueAfter.2 (yields_pure.2 ⟨rfl, ?_⟩)))
  exact hs.queueAfter rfl

omit hP h in
/-- What stands in the place of a declarator. -/
theorem yields_declarator_any (hcalm : Calm code s) (hwithin : Within code E n s.focus) (hfresh : s.focus.seen = false) :
    Yields (Visit.declarator visit) s (fun _ s' => Calm code s') E := by
  have hpos := hwithin.pos
  cases hfocus : s.focus with
  | obj seen fs =>
    rw [hfocus] at hwithin hfresh
    cases hwithin with
    | atom _ _ h => cases h
    | marked => cases hfresh
    | node m _ _ hspan hall =>
      have hfields : ∀ f ∈ fs, Within code E n f.2 := fun f hf => (hall f hf).mono (by omega)
      have hopen : Open code (Within code E n) (fun _ => True) s.focus s :=
        ⟨hcalm, ⟨fs, by rw [hfocus]; rfl, hfields, trivial⟩, fun _ => .refl _⟩
      exact yields_declarator hE (steady_within hpos) hvisit hopen
  | _ =>
    unfold Visit.declarator Step.child?
    rw [yields_bind, yields_bind, yields_focus, hfocus]
    exact yields_throw.2 hE.unsupported

omit h in
theorem yields_declaration (h : Open code P (FreshAt "declarations") t₀ s) :
    Yields (Visit.declaration visit) s (fun _ s' => Closed code t₀ s') E := by
  unfold Visit.declaration
  rw [yields_discard]
  refine h.closeField "declarations" hE hP (by decide) fun fs t _ hget hfresh hPt => ?_
  have hwithin := hP.within t hPt
  refine (yields_each (G := fun t => Within code E n t ∧ t.seen = false) (R := fun _ _ => True) (A := fun _ => True) hE
    (fun _ => ⟨within_of_atom hP.pos rfl, rfl⟩) (fun s hs hG => ?_) (h.calm.focus t) fun ts hts u hu => ?_).mono fun _ _ h => h.1
  · exact (yields_declarator_any hE hvisit hs hG.1 hG.2).mono fun _ _ h => ⟨h, trivial, trivial⟩
  · cases (show t = .arr ts from hts)
    have hu' := (within_arr hP.pos).1 hwithin u hu
    have hseen : (!u.seen) = true := List.all_eq_true.1 (hfresh _ hget) u hu
    exact ⟨hu'.isShared, hu', by simpa using hseen⟩

omit hP hvisit in
theorem yields_queueAssign (key : String) : Yields (Visit.queueAssign key) s (fun _ s' => Closed code t₀ s') E := by
  unfold Visit.queueAssign
  refine yields_bind.2 (h.place key hE fun _ t _ _ _ _ => ?_)
  rw [yields_bind, yields_plain, yields_bind, yields_lift]
  refine (ends_targetsOf hE _).mono fun targets _ => yields_bind.2 (yields_get.2 (yields_ite (fun _ => ?_) fun _ => ?_))
  · refine yields_bind.2 (yields_line hE fun line => yields_queueAfter.2 ⟨h.calm.queueAfter rfl, h.closed.seen, h.kept⟩)
  · exact yields_pure.2 h.closed

theorem yields_assignment : Yields (Visit.assignment visit) s (fun _ s' => Closed code t₀ s') E := by
  unfold Visit.assignment
  refine (h.any.visitField hE hP hvisit "left" (by decide) (stable_true _)).bind fun _ s' h => ?_
  refine (h.visitField hE hP hvisit "right" (by decide) (stable_true _)).bind fun _ s' h => ?_
  exact yields_queueAssign hE h "left"

theorem yields_update : Yields (Visit.update visit) s (fun _ s' => Closed code t₀ s') E := by
  unfold Visit.update
  refine (h.any.visitField hE hP hvisit "argument" (by decide) (stable_true _)).bind fun _ s' h => ?_
  exact yields_queueAssign hE h "argument"

theorem yields_call : Yields (Visit.call visit) s (fun _ s' => Closed code t₀ s') E := by
  unfold Visit.call
  refine (h.any.visitFields hE hP hvisit).bind fun _ s' h => ?_
  refine yields_bind.2 (h.place "callee" hE fun _ t _ _ _ _ => ?_)
  rw [yields_bind, yields_plain, yields_bind, yields_lift]
  refine (ends_isConsole hE _).mono fun console _ => yields_ite (fun _ => ?_) fun _ => yields_pure.2 h.closed
  refine yields_bind.2 (h.place "arguments" hE fun _ t _ _ _ _ => ?_)
  refine (h.setField (Y := fun _ => True) "callee" (by decide) (hP.seen _ rfl) fun _ _ => trivial).bind fun _ s'' h => ?_
  refine yields_bind.2 (yields_line hE fun line => ?_)
  refine (h.setField (Y := fun _ => True) "arguments" (by decide) ?_ fun _ _ => trivial).mono fun _ _ h => h.closed
  refine hP.items [] _ hP.nil fun u hu => .inl ?_
  simp only [List.mem_cons, List.not_mem_nil, or_false] at hu
  rcases hu with rfl | rfl <;> rfl

/-! ### Functions -/

omit hP hvisit h in
theorem yields_paramNames {R : List Json → Pass → Prop} (hR : ∀ names, R names s) : Yields Visit.paramNames s R E := by
  unfold Visit.paramNames
  rw [yields_bind, yields_plainField]
  refine yields_ite (fun _ => ?_) fun _ => yields_pure.2 (hR _)
  rw [yields_bind, yields_lift]
  exact (ends_elements hE).mono fun _ _ => yields_lift.2 ((ends_allBindingNames hE _).mono fun names _ => hR names)

omit hP hvisit h in
theorem yields_directiveCount {R : Nat → Pass → Prop} : ∀ (ts : List Tree), (∀ k, R k s) →
    Yields (Visit.directiveCount ts) s R E
  | [], hR => yields_pure.2 (hR 0)
  | t :: ts, hR => by
    unfold Visit.directiveCount
    rw [yields_bind, yields_plain, yields_bind, yields_lift]
    refine (ends_flag hE "directive").mono fun _ _ => yields_ite (fun _ => ?_) fun _ => yields_pure.2 (hR 0)
    exact yields_bind.2 (yields_directiveCount ts fun k => yields_pure.2 (hR (k + 1)))

omit hP hvisit h in
theorem yields_fallsOff {R : Bool → Pass → Prop} (ts : List Tree) (hR : ∀ b, R b s) : Yields (Visit.fallsOff ts) s R E := by
  unfold Visit.fallsOff
  split
  · exact yields_pure.2 (hR _)
  · next t _ =>
    have htype (u : Tree) : Yields (do return !(← (layer u).hasType "ReturnStatement")) s R E :=
      yields_bind.2 (yields_lift.2 ((ends_hasType hE _).mono fun _ _ => yields_pure.2 (hR _)))
    have hresolve {R : Tree → Pass → Prop} (hR : ∀ u, R u s) : Yields (resolve t) s R E := by
      cases t <;> exact hR _
    exact yields_bind.2 (hresolve htype)

omit hP hvisit h in
theorem yields_instrumented {R : List Tree → Pass → Prop} (name : Json) (ts : List Tree) (hR : ∀ body, R body s) :
    Yields (Visit.instrumented name ts) s R E := by
  unfold Visit.instrumented
  refine yields_bind.2 (yields_paramNames hE fun names => yields_bind.2 (yields_line hE fun line => ?_))
  extract_lets entry
  refine yields_bind.2 (yields_directiveCount hE ts fun count => ?_)
  extract_lets rest finish
  have hfinish (rest : List Tree) : Yields (finish rest) s R E :=
    yields_bind.2 (yields_endLine hE fun line => yields_pure.2 (hR _))
  refine yields_bind.2 (yields_fallsOff hE rest fun falls => yields_ite (fun _ => ?_) fun _ => ?_)
  · exact yields_bind.2 (yields_endLine hE fun line => yields_bind.2 (yields_pure.2 (hfinish _)))
  · exact yields_bind.2 (yields_pure.2 (hfinish _))

/-- The parameters are visited, each with a queue of its own. -/
theorem yields_params (hX : Stable X "params") :
    Yields (Visit.params visit) s (fun _ s' => Open code P X t₀ s') E := by
  unfold Visit.params
  refine yields_bind.2 (h.flag "params" hP fun b => yields_ite (fun _ => ?_) fun _ => yields_pure.2 h)
  rw [yields_bind, yields_focus, yields_discard]
  refine (h.inField (Q := fun _ => True) "params" hE hP.unshared (by decide) fun fs t _ hget hXfs hPt => ?_).mono fun _ _ h => h.1
  have hquiet : Visitor.Bounded code E n fun parent => quietly (visit parent) := by
    intro parent s hs hwithin
    rw [yields_quietly]
    refine (hvisit parent { s with queue := .empty false } ⟨hs.parts, hs.code, nofun⟩ hwithin).mono fun _ s' h => ?_
    exact ⟨⟨h.1.parts, h.1.code, hs.queue⟩, h.2⟩
  refine (yields_visitEach hE hquiet _ (h.calm.focus t) (hP.within t hPt)).mono fun _ s' ⟨hcalm, hleft⟩ => ?_
  exact ⟨hcalm, hP.left _ _ hPt hleft, hX fs t _ hXfs hget hleft, trivial⟩

/-- The body of a function whose statements are about to be visited. -/
def Entered (code : Option String) (E : Fault → Prop) (n : Nat) (fs : Fields Tree) : Prop :=
  ∃ bfs, Fields.get? "body" fs = some (.obj true bfs) ∧ ∀ f ∈ bfs, Within code E n f.2

omit hE hP hvisit h in
theorem stable_entered (hne : key ≠ "body") : Stable (Entered code E n) key := by
  rintro fs t t' ⟨bfs, hbody, hall⟩ _ _
  exact ⟨bfs, by rw [Fields.get?_set, if_neg hne, hbody], hall⟩

omit h in
/-- A function that is entered: its parameters are visited, and then the statements of its body. -/
theorem yields_entered (parent : Option Tree) (h : Open code P (Entered code E n) t₀ s) : Yields (do
      let name ← Visit.name parent
      Visit.params visit
      let statements ← Step.inField "body" (Step.inField "body" (Visit.statements visit))
      let body ← Visit.instrumented name statements
      Step.inField "body" (Step.inField "body" (changeList .wrongKind fun _ => body))) s (fun _ s' => Closed code t₀ s') E := by
  refine yields_bind.2 (yields_name hE parent fun name => ?_)
  refine (yields_params hE hP hvisit h (stable_entered (by decide))).bind fun _ s h => ?_
  have hstatements : Yields (Step.inField "body" (Step.inField "body" (Visit.statements visit))) s
      (fun _ s' => Open code P (Entered code E n) t₀ s') E := by
    refine (h.inField (Q := fun _ => True) "body" hE hP.unshared (by decide) fun fs t _ hget hentered _ => ?_).mono
      fun _ _ h => h.1
    obtain ⟨bfs, hbody, hall⟩ := hentered
    cases hget.symm.trans hbody
    refine yields_inField rfl (fun _ => hE.missing _) fun u hu => ?_
    have hwithin : Within code E n u := hall _ (Fields.mem_of_get? hu)
    refine ⟨hwithin.isShared, (yields_statements hE hvisit (h.calm.focus u) hwithin).mono fun _ s' ⟨hcalm, hleft, _⟩ => ?_⟩
    refine ⟨hcalm.focus _, hP.seen _ rfl, ⟨_, by rw [Fields.get?_set, if_pos rfl], ?_⟩, trivial⟩
    exact forall_mem_set hall (hwithin.leftEach hleft)
  refine hstatements.bind fun statements s h => yields_bind.2 (yields_instrumented hE name statements fun body => ?_)
  refine h.closeField "body" hE hP (by decide) fun fs t _ hget hentered _ => ?_
  obtain ⟨bfs, hbody, hall⟩ := hentered
  cases hget.symm.trans hbody
  refine yields_inField rfl (fun _ => hE.missing _) fun u hu => ⟨(hall _ (Fields.mem_of_get? hu)).isShared, ?_⟩
  exact yields_changeList (fun us _ => h.calm.focus _) hE.wrongKind

end Rules

/-! ## Blocks around statements and expressions -/

/-- Whether a value is a block is asked of nodes only. -/
theorem ends_isBlock (hE : CoversReading E) (t : Tree) : EndsIn ((layer t).hasType "BlockStatement")
    (fun b => (∃ seen fs, t = .obj seen fs) ∧ ∀ ts, t = Probe.block ts → b = true) E := by
  refine (ends_require hE "type").bind fun x hx => ?_
  obtain ⟨fs, hl, hx⟩ := hx
  cases t with
  | obj seen fields =>
    cases hl
    refine ⟨⟨seen, fs, rfl⟩, fun ts hts => ?_⟩
    cases hts
    cases hx
    rfl
  | _ => cases hl

/-- All fields but one, which may hold anything, are in `P`. -/
def AllBut (key : String) (P : Tree → Prop) (fs : Fields Tree) : Prop :=
  ∀ t, P t → ∀ f ∈ Fields.set key t fs, P f.2

theorem allBut_set_self {fs : Fields Tree} {t : Tree} (h : ∀ f ∈ fs, P f.2) : AllBut key P (Fields.set key t fs) := by
  intro u hu
  rw [Fields.set_set]
  exact forall_mem_set h hu

theorem AllBut.set {k : String} {t : Tree} (hne : k ≠ key) (ht : P t) : ∀ {fs : Fields Tree}, AllBut key P fs →
    AllBut key P (Fields.set k t fs)
  | [], _ => by
    intro u hu
    simp [Fields.set, hne, ht, hu]
  | (k', v) :: rest, h => by
    intro u hu
    have hu' := h u hu
    by_cases hk : k' = k
    · subst hk
      simp only [Fields.set, if_pos, if_neg hne] at hu' ⊢
      exact List.forall_mem_cons.2 ⟨ht, (List.forall_mem_cons.1 hu').2⟩
    · by_cases hkey : k' = key
      · subst hkey
        simp only [Fields.set, if_neg hk, if_pos] at hu' ⊢
        exact List.forall_mem_cons.2 ⟨hu, forall_mem_set (List.forall_mem_cons.1 hu').2 ht⟩
      · simp only [Fields.set, if_neg hk, if_neg hkey] at hu' ⊢
        refine List.forall_mem_cons.2 ⟨(List.forall_mem_cons.1 hu').1, ?_⟩
        refine AllBut.set hne ht (fun w hw => ?_) u hu
        have := h w hw
        simp only [Fields.set, if_neg hkey] at this
        exact (List.forall_mem_cons.1 this).2

section Blocks

variable (hE : CoversReading E) (hn : 1 ≤ n) (hvisit : visit.Bounded code E (n + 1)) (h : Open code (Ready code E n) X t₀ s)

include hn in
theorem Ready.fields {fs : Fields Tree} (h : Ready code E n (.obj false fs)) : ∀ f ∈ fs, Within code E (n + 1) f.2 := by
  rcases h with h | ⟨t, he, h, -⟩
  · cases h with
    | atom _ _ h => cases h
    | node m _ _ hspan h => exact fun f hf => (h f hf).mono (by omega)
  · cases he
    refine List.forall_mem_cons.2 ⟨within_of_atom (by omega) rfl, List.forall_mem_singleton.2 ?_⟩
    exact (within_arr (by omega)).2 (List.forall_mem_singleton.2 (h.mono (by omega)))

include hE hn h

/-- The statement under `key` becomes a block. -/
theorem Open.asBlock (key : String) (hkey : key ≠ "range") (hfresh : ∀ fs, X fs → FreshAt key fs)
    (hset : ∀ fs t, X fs → X (Fields.set key (Probe.block [t]) fs)) :
    Yields (Visit.asBlock key) s (fun _ s' => Open code (Ready code E n) X t₀ s') E := by
  have hP : Steady code E (n + 1) (Ready code E n) := steady_ready hn
  unfold Visit.asBlock
  extract_lets finish
  have hfinish (s : Pass) (h : Open code (Ready code E n) X t₀ s) :
      Yields (finish ()) s (fun _ s' => Open code (Ready code E n) X t₀ s') E :=
    yields_discard.2 (h.place key hE fun _ _ _ _ _ _ => h)
  refine yields_bind.2 (h.child? key hP (fun _ _ _ => hfinish s h) fun fs t hfocus hget hXfs hPt => ?_)
  refine yields_ite (fun _ => ?_) fun _ => hfinish s h
  refine yields_bind.2 (yields_lift.2 ((ends_isBlock hE t).mono fun b hb => yields_ite (fun _ => hfinish s h) fun hnot => ?_))
  refine yields_bind.2 (h.place key hE fun fs' t' hfocus' hget' _ _ => ?_)
  cases hfocus.symm.trans hfocus'
  cases hget.symm.trans hget'
  refine (h.setField key hkey ?_ fun fs hX => hset fs t hX).bind fun _ s h => hfinish s h
  rcases hPt with hwithin | ⟨u, rfl, -⟩
  · exact .inr ⟨t, rfl, hwithin, seen_of_isFresh (hfresh fs hXfs t hget)⟩
  · exact absurd (hb.2 _ rfl) hnot

/-- The expression that an arrow function answers, as the statement that returns it. -/
def answerOf (t : Tree) : Tree := .obj false [("type", .str "ReturnStatement"), ("argument", t), ("loc", t.field "loc")]

omit hE hn h in
theorem within_answerOf {fields : Fields Tree} (h : Within code E n (.obj false fields)) :
    Within code E (n + 1) (answerOf (.obj false fields)) := by
  have hloc : Within code E n ((Tree.obj false fields).field "loc") ∧ ((Tree.obj false fields).field "loc").isFresh = true := by
    have hpos := h.pos
    change Within code E n ((Fields.get? "loc" fields).getD null) ∧ ((Fields.get? "loc" fields).getD null).isFresh = true
    cases hget : Fields.get? "loc" fields with
    | none => exact ⟨within_of_atom hpos rfl, rfl⟩
    | some loc =>
      rw [Option.getD_some]
      cases h with
      | atom _ _ h => cases h
      | node m _ _ hspan h hfresh =>
        exact ⟨(h (_, loc) (Fields.mem_of_get? hget)).mono (by omega), hfresh (_, loc) (Fields.mem_of_get? hget)⟩
  refine .node n (n + 1) _ (Nat.le_refl _) ?_ ?_ nofun
  · simp only [List.forall_mem_cons]
    exact ⟨within_of_atom h.pos rfl, h, hloc.1, nofun⟩
  · simp only [List.forall_mem_cons]
    exact ⟨rfl, rfl, hloc.2, nofun⟩

omit h in
/-- The body of a function becomes a block, and is not marked unless it was. -/
theorem yields_arrowBody (h : Open code (Ready code E n) (FreshAt "body") t₀ s) :
    Yields Visit.arrowBody s (fun _ s' => Calm code s' ∧ ∃ fs bfs, s'.focus = .obj t₀.seen fs ∧
      Fields.get? "body" fs = some (.obj false bfs) ∧ (∀ f ∈ bfs, Within code E (n + 1) f.2) ∧
      AllBut "body" (Ready code E n) fs ∧ Kept t₀ (.obj t₀.seen fs)) E := by
  have hP : Steady code E (n + 1) (Ready code E n) := steady_ready hn
  have hkept := h.kept
  unfold Visit.arrowBody
  refine yields_bind.2 (h.child "body" hE hP fun fs t hfocus hget hfresh hPt => ?_)
  refine yields_bind.2 (yields_lift.2 ((ends_isBlock hE t).mono fun b hb => ?_))
  obtain ⟨⟨seen, bfs, rfl⟩, hblock⟩ := hb
  cases seen_of_isFresh (hfresh _ hget)
  obtain ⟨_, hfocus', hall, -⟩ := h.focus
  cases hfocus.symm.trans hfocus'
  refine yields_ite (fun _ => ?_) fun hnot => ?_
  · exact yields_pure.2 ⟨h.calm, fs, bfs, hfocus, hget, hPt.fields hn, fun u hu => forall_mem_set hall hu, hfocus ▸ hkept⟩
  · have hwithin : Within code E n (.obj false bfs) := by
      rcases hPt with hwithin | ⟨u, he, -⟩
      · exact hwithin
      · exact absurd (hblock _ he) hnot
    refine yields_bind.2 (h.place "body" hE fun fs' t' hfocus' hget' _ _ => ?_)
    cases hfocus.symm.trans hfocus'
    cases hget.symm.trans hget'
    refine yields_bind.2 (yields_setField.2 (yields_setField.2 ?_))
    refine ⟨(h.calm.focus _).focus _, _, [("type", .str "BlockStatement"), ("body", .arr [answerOf (.obj false bfs)])],
      by rw [hfocus]; rfl, ?_, ?_, ?_, ?_⟩
    · rw [Fields.get?_set, if_neg (by decide), Fields.get?_set, if_pos rfl]
      rfl
    · refine List.forall_mem_cons.2 ⟨within_of_atom (by omega) rfl, List.forall_mem_singleton.2 ?_⟩
      exact (within_arr (by omega)).2 (List.forall_mem_singleton.2 (within_answerOf hwithin))
    · exact (allBut_set_self hall).set (by decide) (hP.atom _ rfl)
    · exact kept_set (kept_set (hfocus ▸ hkept) (by decide) _) (by decide) _

include hvisit in
omit h in
theorem yields_function (parent : Option Tree) (h : Open code (Ready code E n) (FreshAt "body") t₀ s) :
    Yields (Visit.function visit parent) s (fun _ s' => Closed code t₀ s') E := by
  have hP : Steady code E (n + 1) (Ready code E n) := steady_ready hn
  unfold Visit.function
  refine (yields_arrowBody hE hn h).bind fun _ s ⟨hcalm, fs, bfs, hfocus, hbody, hwithin, hall, hkept⟩ => ?_
  refine yields_bind.2 (yields_child hfocus (fun _ => hE.missing _) fun t ht => ?_)
  cases hbody.symm.trans ht
  refine ⟨rfl, yields_ite (fun hseen => by cases hseen) fun _ => ?_⟩
  have hmark : Yields (Step.inField "body" mark) s (fun _ s' => Open code (Ready code E n) (Entered code E (n + 1)) t₀ s') E := by
    refine yields_inField hfocus (fun _ => hE.missing _) fun t ht => ?_
    cases hbody.symm.trans ht
    refine ⟨rfl, yields_mark.2 ⟨(hcalm.focus _).focus _, ⟨_, rfl, hall _ (hP.seen _ rfl), ?_⟩, ?_⟩⟩
    · exact ⟨bfs, by rw [Fields.get?_set, if_pos rfl]; rfl, hwithin⟩
    · exact kept_set hkept (by decide) _
  exact hmark.bind fun _ s h => yields_entered hE hP hvisit parent h

/-! ### Conditions -/

omit hE hn h in
/-- A value that is no node has no text as a condition. -/
theorem ends_conditionText_other (hE : CoversReading E) {j : Json} (hj : j.isNode = false) (code : Option String) :
    EndsIn (Node.conditionText j code) (fun _ => True) E := by
  unfold Node.conditionText
  refine (ends_sourceText hE j code).bind fun text _ => ?_
  cases text with
  | some text => trivial
  | none =>
    refine EndsIn.bind (Q := fun _ => False) ?_ nofun
    cases j with
    | obj fields =>
      have hget : Fields.get? "type" fields = none := by simpa [Json.isNode_obj] using hj
      unfold printNode
      extract_lets p
      have hlayer : layer p = .obj (Fields.mapValues (Json.annotate Printable.forms) fields) :=
        Json.layer_annotate_obj Printable.forms fields
      rw [hlayer, Layer.require, Fields.get?_mapValues, hget]
      exact hE.missing _
    | _ => exact hE.wrongKind

omit hn h in
theorem yields_conditionText {R : Json → Pass → Prop} {t : Tree} (hcalm : Calm code s)
    (hshown : t.isNode = true → t.Shown code E) (hR : ∀ text, R text s) : Yields (conditionText t) s R E := by
  unfold conditionText
  rw [yields_bind, yields_plain, yields_bind, yields_get, hcalm.parts, hcalm.code, yields_bind, yields_lift]
  refine EndsIn.mono ?_ fun text (_ : True) => yields_pure.2 (hR _)
  cases hnode : t.isNode with
  | true => exact hshown hnode t (.refl t)
  | false => exact ends_conditionText_other hE (by rw [Tree.expand_nil, isNode_bare, hnode]) code

end Blocks

section Loops

variable (hE : CoversReading E) (hn : 1 ≤ n) (hvisit : visit.Bounded code E (n + 1))

include hE hn hvisit

omit hE hn hvisit in
theorem freshAt_set {k : String} {fs : Fields Tree} {t : Tree} (h : FreshAt k fs) (ht : t.isFresh = true) :
    FreshAt k (Fields.set key t fs) := by
  intro u hu
  rw [Fields.get?_set] at hu
  split at hu
  · cases hu
    exact ht
  · exact h u hu

/-- The branches of a conditional statement. -/
theorem yields_branches (h : Open code (Ready code E n) (fun fs => FreshAt "consequent" fs ∧ FreshAt "alternate" fs) t₀ s) :
    Yields (do
      Visit.asBlock "consequent"
      if (← Step.child? "alternate").isSome then Visit.asBlock "alternate"
      Visit.field visit "consequent"
      if (← Step.child? "alternate").isSome then Visit.field visit "alternate") s (fun _ s' => Closed code t₀ s') E := by
  have hP : Steady code E (n + 1) (Ready code E n) := steady_ready hn
  have hconsequent (s : Pass) (h : Open code (Ready code E n) (fun _ => True) t₀ s) : Yields (do
      Visit.field visit "consequent"
      if (← Step.child? "alternate").isSome then Visit.field visit "alternate") s (fun _ s' => Closed code t₀ s') E := by
    refine (h.visitField hE hP hvisit "consequent" (by decide) (stable_true _)).bind fun _ s h => ?_
    refine yields_bind.2 (h.child? "alternate" hP (fun _ _ _ => yields_pure.2 h.closed) fun _ _ _ _ _ _ => ?_)
    exact (h.visitField hE hP hvisit "alternate" (by decide) (stable_true _)).mono fun _ _ h => h.closed
  refine (h.asBlock hE hn "consequent" (by decide) (fun fs h => h.1)
    fun fs t h => ⟨freshAt_set h.1 rfl, freshAt_set h.2 rfl⟩).bind fun _ s h => ?_
  refine yields_bind.2 (h.child? "alternate" hP (fun _ _ _ => hconsequent s h.any) fun _ _ _ _ _ _ => ?_)
  exact (h.asBlock hE hn "alternate" (by decide) (fun fs h => h.2)
    fun fs t h => ⟨freshAt_set h.1 rfl, freshAt_set h.2 rfl⟩).bind fun _ s h => hconsequent s h.any

theorem yields_branch
    (h : Open code (Ready code E n) (fun fs => AllShown code E ["test"] fs ∧ FreshAt "consequent" fs ∧ FreshAt "alternate" fs) t₀ s) :
    Yields (Visit.branch visit) s (fun _ s' => Closed code t₀ s') E := by
  have hP : Steady code E (n + 1) (Ready code E n) := steady_ready hn
  unfold Visit.branch
  refine (h.visitField hE hP hvisit "test" (by decide) ?_).bind fun _ s h => ?_
  · exact (stable_allShown _ _).and ((stable_freshAt (by decide)).and (stable_freshAt (by decide)))
  refine yields_bind.2 (h.place "test" hE fun fs t _ hget hX _ => ?_)
  refine yields_bind.2 (yields_conditionText hE h.calm (hX.1 "test" (by decide) t hget) fun text => ?_)
  refine yields_bind.2 (yields_line hE fun line => ?_)
  refine (h.setField (Y := fun fs => FreshAt "consequent" fs ∧ FreshAt "alternate" fs) "test" (by decide) (hP.seen _ rfl) ?_).bind
    fun _ s h => yields_branches hE hn hvisit h
  rintro fs ⟨-, hyes, hno⟩
  exact ⟨freshAt_set_of_ne (by decide) hyes, freshAt_set_of_ne (by decide) hno⟩

omit hn hvisit in
/-- Probes are put into a list of the body. -/
theorem Open.changeBody (h : Open code P X t₀ s) {e : Fault} (he : E e) (f : List Tree → List Tree)
    (hX : ∀ fs t, X fs → X (Fields.set "body" t fs)) :
    Yields (Step.inField "body" (Step.inField "body" (changeList e f))) s
      (fun _ s' => Open code (fun _ => True) X t₀ s') E := by
  have hinner (t : Tree) : Yields (Step.inField "body" (changeList e f)) { s with focus := t } (fun _ s' => Calm code s') E :=
    (yields_inField_any "body" hE (h.calm.focus t) fun u => yields_changeList (fun _ _ => h.calm.focus _) he).mono
      fun _ _ h => h.1
  refine (yields_inField_any "body" hE h.calm hinner).mono fun _ s' ⟨hcalm, seen, fs, t, hfocus, hfocus'⟩ => ?_
  obtain ⟨fs', hfs, -, hXfs⟩ := h.focus
  cases hfocus.symm.trans hfs
  exact ⟨hcalm, ⟨_, hfocus', fun _ _ => trivial, hX fs t hXfs⟩, hfocus' ▸ kept_set (hfocus ▸ h.kept) (by decide) t⟩

theorem yields_loop (type : String) (h : Open code (Ready code E n) (FreshAt "body") t₀ s) :
    Yields (Visit.loop visit type) s (fun _ s' => Closed code t₀ s') E := by
  have hP : Steady code E (n + 1) (Ready code E n) := steady_ready hn
  unfold Visit.loop
  refine (h.visitHeader hE hP hvisit "left" (by decide) (stable_freshAt (by decide))).bind fun _ s h => ?_
  refine ((h.weaken fun _ => And.left).visitHeader hE hP hvisit "right" (by decide) (stable_freshAt (by decide))).bind fun _ s h => ?_
  refine ((h.weaken fun _ => And.left).visitHeader hE hP hvisit "test" (by decide) (stable_freshAt (by decide))).bind fun _ s h => ?_
  refine ((h.weaken fun _ => And.left).asBlock hE hn "body" (by decide) (fun _ h => h) fun fs t h => freshAt_set h rfl).bind
    fun _ s h => ?_
  refine (h.any.visitField hE hP hvisit "body" (by decide) (stable_true _)).bind fun _ s h => ?_
  refine yields_bind.2 (yields_line hE fun line => ?_)
  extract_lets entry
  rw [yields_bind, yields_plainField, yields_bind, yields_lift]
  refine (ends_iterationProbes hE _ _).mono fun probes _ => ?_
  exact (h.changeBody hE hE.wrongKind _ fun _ _ h => h).mono fun _ _ h => h.closed

/-- What is still to be told of the fields of a counted loop once its headers are visited. -/
def HeadersVisited (code : Option String) (E : Fault → Prop) (keys : List String) (fs : Fields Tree) : Prop :=
  AllShown code E keys fs ∧ FreshAt "body" fs ∧ MarkedAt "init" fs

omit hvisit in
theorem yields_loopInit (line : Json) (h : Open code (Ready code E n) (HeadersVisited code E ["init", "test"]) t₀ s) :
    Yields (Visit.loopInit line) s
      (fun _ s' => Open code (Ready code E n) (fun fs => AllShown code E ["test"] fs ∧ FreshAt "body" fs) t₀ s') E := by
  have hP : Steady code E (n + 1) (Ready code E n) := steady_ready hn
  have hdone (fs : Fields Tree) (h : HeadersVisited code E ["init", "test"] fs) : AllShown code E ["test"] fs ∧ FreshAt "body" fs :=
    ⟨h.1.mono (by decide), h.2.1⟩
  have hset (fs : Fields Tree) (t : Tree) (h : HeadersVisited code E ["init", "test"] fs) :
      AllShown code E ["test"] (Fields.set "init" t fs) ∧ FreshAt "body" (Fields.set "init" t fs) :=
    ⟨allShown_set_of_not_mem (by decide) (hdone fs h).1, freshAt_set_of_ne (by decide) h.2.1⟩
  unfold Visit.loopInit
  rw [yields_bind, yields_plainField]
  refine yields_ite (fun _ => yields_pure.2 (h.weaken hdone)) fun hnode => ?_
  rw [yields_bind, yields_lift]
  refine (ends_hasType hE _).mono fun declares _ => yields_ite (fun _ => ?_) fun _ => ?_
  · rw [yields_bind, yields_lift]
    refine (ends_declaredNames hE _).mono fun names _ => yields_ite (fun _ => yields_pure.2 (h.weaken hdone)) fun _ => ?_
    refine yields_bind.2 (yields_freshNumber.2 ?_)
    have hcounted : Open code (Ready code E n) (HeadersVisited code E ["init", "test"]) t₀ { s with counter := s.counter + 1 } :=
      ⟨⟨h.calm.parts, h.calm.code, h.calm.queue⟩, h.focus, h.kept⟩
    refine (hcounted.inField (Q := fun _ => True) "init" hE hP.unshared (by decide) fun fs t hfocus hget hX _ => ?_).mono
      fun _ _ h => h.1
    -- the declaration is a node that has been visited, so it may be anything from here on
    have hseen : t.seen = true := by
      refine hX.2.2 t hget ?_
      rw [show s.focus = .obj t₀.seen fs from hfocus, h.calm.parts] at hnode
      simpa [Tree.field, hget, Tree.expand_nil, isNode_bare] using hnode
    refine (yields_inField_any "declarations" hE (hcounted.calm.focus t) fun u =>
      yields_changeList (fun _ _ => hcounted.calm.focus _) hE.unsupported).mono fun _ s' h' => ?_
    obtain ⟨hcalm, seen, dfs, u, hinit, hinit'⟩ := h'
    cases (show t = .obj seen dfs from hinit)
    exact ⟨hcalm, hP.seen _ (hinit' ▸ hseen), hset fs _ hX, trivial⟩
  · rw [yields_bind, yields_lift]
    refine (ends_writtenTargets hE _).mono fun targets _ => ?_
    extract_lets rest
    have hrest (probe : Json) : Yields (rest probe) s
        (fun _ s' => Open code (Ready code E n) (fun fs => AllShown code E ["test"] fs ∧ FreshAt "body" fs) t₀ s') E := by
      refine yields_bind.2 (h.place "init" hE fun _ t _ _ _ _ => ?_)
      exact h.setField "init" (by decide) (hP.seen _ rfl) fun fs h => hset fs _ h
    split
    · refine yields_bind.2 (h.place "init" hE fun fs t _ hget hX _ => ?_)
      refine yields_bind.2 (yields_conditionText hE h.calm (hX.1 "init" (by decide) t hget) fun text => ?_)
      exact yields_bind.2 (yields_pure.2 (hrest _))
    · exact yields_bind.2 (yields_pure.2 (hrest _))

omit hvisit in
theorem yields_loopUpdate (line : Json)
    (h : Open code (Ready code E n) (fun fs => AllShown code E ["test"] fs ∧ FreshAt "body" fs) t₀ s) :
    Yields (Visit.loopUpdate line) s
      (fun _ s' => Open code (Ready code E n) (fun fs => AllShown code E ["test"] fs ∧ FreshAt "body" fs) t₀ s') E := by
  have hP : Steady code E (n + 1) (Ready code E n) := steady_ready hn
  unfold Visit.loopUpdate
  rw [yields_bind, yields_plainField]
  refine yields_ite (fun _ => yields_pure.2 h) fun _ => ?_
  rw [yields_bind, yields_lift]
  refine (ends_writtenTargets hE _).mono fun targets _ => ?_
  split
  · exact yields_pure.2 h
  · refine yields_bind.2 (h.place "update" hE fun fs t _ hget hX _ => ?_)
    exact h.setField "update" (by decide) (hP.seen _ rfl) fun fs h => 
      ⟨allShown_set_of_not_mem (by decide) h.1, freshAt_set_of_ne (by decide) h.2⟩

omit hn hvisit in
theorem yields_loopTest (line : Json) (hP : Steady code E m P) (h : Open code P (AllShown code E ["test"]) t₀ s) :
    Yields (Visit.loopTest line) s (fun _ s' => Closed code t₀ s') E := by
  have hX (fs : Fields Tree) (t : Tree) (h : AllShown code E ["test"] fs) : AllShown code E ["test"] (Fields.set "body" t fs) :=
    allShown_set_of_not_mem (by decide) h
  unfold Visit.loopTest
  refine yields_bind.2 (h.child? "test" hP (fun _ _ _ => yields_pure.2 h.closed) fun _ _ _ _ _ _ => ?_)
  refine yields_ite (fun _ => ?_) fun _ => yields_pure.2 h.closed
  refine (h.changeBody hE hE.unsupported _ hX).bind fun _ s h => ?_
  refine yields_bind.2 (h.place "test" hE fun fs t _ hget hX _ => ?_)
  refine yields_bind.2 (yields_conditionText hE h.calm (hX "test" (by decide) t hget) fun text => ?_)
  extract_lets probe
  exact (h.any.changeBody hE hE.unsupported _ fun _ _ h => h).mono fun _ _ h => h.closed

theorem yields_countedLoop
    (h : Open code (Ready code E n) (fun fs => AllShown code E ["init", "test"] fs ∧ FreshAt "body" fs) t₀ s) :
    Yields (Visit.countedLoop visit) s (fun _ s' => Closed code t₀ s') E := by
  have hP : Steady code E (n + 1) (Ready code E n) := steady_ready hn
  unfold Visit.countedLoop
  refine yields_bind.2 (yields_line hE fun line => ?_)
  have hstable {key : String} (hkey : key ≠ "body") :
      Stable (fun fs => AllShown code E ["init", "test"] fs ∧ FreshAt "body" fs) key :=
    (stable_allShown _ _).and (stable_freshAt hkey)
  refine (h.visitHeader hE hP hvisit "init" (by decide) (hstable (by decide))).bind fun _ s h => ?_
  refine (h.visitHeader hE hP hvisit "test" (by decide) ((hstable (by decide)).and (stable_markedAt _ _))).bind fun _ s h => ?_
  refine ((h.weaken fun _ => And.left).visitHeader hE hP hvisit "update" (by decide)
    ((hstable (by decide)).and (stable_markedAt _ _))).bind fun _ s h => ?_
  refine (yields_loopInit hE hn line (h.weaken fun _ h => ⟨h.1.1.1, h.1.1.2, h.1.2⟩)).bind fun _ s h => ?_
  refine (yields_loopUpdate hE hn line h).bind fun _ s h => ?_
  refine (h.asBlock hE hn "body" (by decide) (fun _ h => h.2)
    fun fs t h => ⟨allShown_set_of_not_mem (by decide) h.1, freshAt_set h.2 rfl⟩).bind fun _ s h => ?_
  refine ((h.weaken fun _ => And.left).visitField hE hP hvisit "body" (by decide) (stable_allShown _ _)).bind fun _ s h => ?_
  exact yields_loopTest hE line hP h

end Loops

/-! ## All nodes -/

/-- What is told of the fields of a node of a type before its rule runs. -/
def Unvisited (code : Option String) (E : Fault → Prop) (type : String) (fs : Fields Tree) : Prop :=
  AllShown code E (conditions (some (.str type))) fs ∧ ∀ key, FreshAt key fs

section Rule

variable {type : String} (hE : CoversReading E)

include hE

/-- The rules of the statements that a pass may put around others. -/
theorem yields_rule_shallow (hP : Steady code E n P) (hvisit : visit.Bounded code E n) (parent : Option Tree)
    (hspan : span (some (.str type)) = 1) (h : Open code P X t₀ s) :
    Yields (Visit.rule visit type parent) s (fun _ s' => Closed code t₀ s') E := by
  obtain rfl | rfl : type = "BlockStatement" ∨ type = "ReturnStatement" := by
    unfold span at hspan
    split at hspan
    · next heq => exact .inl (by injections)
    · next heq => exact .inr (by injections)
    · cases hspan
  · exact yields_block hE hP hvisit h
  · exact yields_returnStatement hE hP hvisit h

theorem yields_rule (hn : 1 ≤ n) (hvisit : visit.Bounded code E (n + 1)) (parent : Option Tree)
    (h : Open code (Ready code E n) (Unvisited code E type) t₀ s) :
    Yields (Visit.rule visit type parent) s (fun _ s' => Closed code t₀ s') E := by
  have hP : Steady code E (n + 1) (Ready code E n) := steady_ready hn
  have hfresh (key : String) : Open code (Ready code E n) (FreshAt key) t₀ s := h.weaken fun _ h => h.2 key
  unfold Visit.rule
  split
  · exact yields_block hE hP hvisit h
  · exact yields_block hE hP hvisit h
  · exact yields_switchCase hE hP hvisit h
  · exact yields_function hE hn hvisit parent (hfresh "body")
  · exact yields_function hE hn hvisit parent (hfresh "body")
  · exact yields_function hE hn hvisit parent (hfresh "body")
  · exact yields_member hE hP hvisit h
  · exact yields_member hE hP hvisit h
  · exact yields_returnStatement hE hP hvisit h
  · exact yields_classDeclaration hE hP hvisit (hfresh "body")
  · exact yields_classExpression hE hP hvisit parent (hfresh "body")
  · exact yields_declaration hE hP hvisit (hfresh "declarations")
  · exact yields_assignment hE hP hvisit h
  · exact yields_update hE hP hvisit h
  · exact yields_call hE hP hvisit h
  · exact yields_branch hE hn hvisit (h.weaken fun _ h => ⟨h.1, h.2 "consequent", h.2 "alternate"⟩)
  · exact yields_loop hE hn hvisit _ (hfresh "body")
  · exact yields_loop hE hn hvisit _ (hfresh "body")
  · exact yields_loop hE hn hvisit _ (hfresh "body")
  · exact yields_loop hE hn hvisit _ (hfresh "body")
  · exact yields_countedLoop hE hn hvisit (h.weaken fun _ h => ⟨h.1, h.2 "body"⟩)
  · exact (h.any.visitField hE hP hvisit "body" (by decide) (stable_true _)).mono fun _ _ h => h.closed
  · exact yields_pure.2 h.closed
  · exact yields_throw.2 hE.wrongKind
  · exact yields_namelessClass hE hP hvisit parent (hfresh "body")
  · exact (h.any.visitFields hE hP hvisit).mono fun _ _ h => h.closed

end Rule

end Node

/-! ## Trees -/

section Trees

variable {n : Nat} {s : Pass} {visit : Visitor}

/-- A node is marked, and worked on by the rule of its type. -/
theorem yields_node_of_rule {R : Unit → Pass → Prop} {fs : Fields Tree} {type : String} {parent : Option Tree}
    (hfocus : s.focus = .obj false fs) (htype : Fields.get? "type" fs = some (.str type))
    (h : Yields (Visit.rule visit type parent) { s with focus := .obj true fs } R E) :
    Yields (Visit.node visit parent) s R E := by
  have hvisited : (!(Tree.obj false fs).isNode || (Tree.obj false fs).seen) = false := by
    have hnode : (Tree.obj false fs).isNode = true := Option.isSome_iff_exists.2 ⟨_, htype⟩
    rw [hnode]
    rfl
  unfold Visit.node
  rw [yields_bind, yields_focus, hfocus, hvisited]
  simp only [Bool.false_eq_true, if_false]
  rw [yields_bind, yields_mark, yields_bind, yields_place, hfocus, Tree.mark, layer_obj, Layer.require_of_get? htype]
  exact h

theorem Visitor.Bounded.node (hE : CoversReading E) (hvisit : visit.Bounded code E n) :
    Visitor.Bounded code E (n + 1) (Visit.node visit) := by
  intro parent s hcalm hwithin
  by_cases hskip : (!s.focus.isNode || s.focus.seen) = true
  · unfold Visit.node
    rw [yields_bind, yields_focus, if_pos hskip]
    exact yields_pure.2 ⟨hcalm, left_of_skipped hskip⟩
  cases hfocus : s.focus with
  | obj seen fs =>
    rw [hfocus] at hwithin hskip
    cases hwithin with
    | atom _ _ h => cases h
    | marked => simp [Tree.seen] at hskip
    | node m _ _ hspan hall hfresh hshown =>
      have hnode : (Tree.obj false fs).isNode = true := by simpa [Tree.seen] using hskip
      have hopen {P : Tree → Prop} {X : Fields Tree → Prop} (hP : ∀ f ∈ fs, P f.2) (hX : X fs) :
          Open code P X (.obj true fs) { s with focus := .obj true fs } :=
        ⟨hcalm.focus _, ⟨fs, rfl, hP, hX⟩, fun _ => .refl _⟩
      have hdone (s' : Pass) (h : Closed code (.obj true fs) s') : Calm code s' ∧ Left (.obj false fs) s'.focus :=
        ⟨h.calm, ⟨(h.kept hnode).node, (h.kept hnode).range⟩, .inl h.seen⟩
      obtain ⟨t, htype⟩ := Option.isSome_iff_exists.1 (show (Fields.get? "type" fs).isSome = true from hnode)
      have hpos : 1 ≤ m := (hall _ (Fields.mem_of_get? htype)).pos
      rw [htype] at hspan hshown
      cases t with
      | str type =>
        refine yields_node_of_rule hfocus htype ?_
        obtain hone | htwo : span (some (.str type)) = 1 ∨ span (some (.str type)) = 2 := by
          unfold span
          split <;> simp
        · have hm : m ≤ n := by omega
          have hstart := hopen (X := fun _ => True) (fun f hf => (hall f hf).mono hm) trivial
          refine (yields_rule_shallow hE (steady_within (Nat.le_trans hpos hm)) hvisit parent hone hstart).mono ?_
          exact fun _ s' h => hdone s' h
        · obtain ⟨k, rfl⟩ : ∃ k, n = k + 1 := ⟨n - 1, by omega⟩
          have hready : ∀ f ∈ fs, Ready code E k f.2 := fun f hf => .inl ((hall f hf).mono (by omega))
          have hunvisited : Unvisited code E type fs := ⟨hshown, fun key u hu => hfresh _ (Fields.mem_of_get? hu)⟩
          exact (yields_rule hE (by omega) hvisit parent (hopen hready hunvisited)).mono fun _ s' h => hdone s' h
      | _ =>
        unfold Visit.node
        rw [yields_bind, yields_focus, hfocus, if_neg hskip, yields_bind, yields_mark, yields_bind, yields_place, hfocus,
          Tree.mark, layer_obj, Layer.require_of_get? htype]
        exact ends_ok.2 (yields_throw.2 hE.wrongKind)
  | _ =>
    rw [hfocus] at hskip
    exact absurd rfl hskip

/-- The visitor of a depth is one for values within this depth. -/
theorem bounded_visitWith (hE : CoversReading E) : ∀ n, (visitWith n).Bounded code E n
  | 0 => fun _ _ _ h => absurd h.pos (by decide)
  | n + 1 => (bounded_visitWith hE n).node hE

/-- A program stays one. -/
theorem yields_program (hE : CoversReading E) {fs : Fields Tree} (hcalm : Calm code s) (hfocus : s.focus = .obj false fs)
    (htype : Fields.get? "type" fs = some (.str "Program")) (hwithin : Within code E n s.focus) :
    Yields (visitWith n none) s
      (fun _ s' => Calm code s' ∧ ∃ fs', s'.focus = .obj true fs' ∧ Fields.get? "type" fs' = some (.str "Program")) E := by
  obtain ⟨k, rfl⟩ : ∃ k, n = k + 1 := ⟨n - 1, by have := hwithin.pos; omega⟩
  rw [hfocus] at hwithin
  cases hwithin with
  | atom _ _ h => cases h
  | node m _ _ hspan hall _ _ =>
    have hpos : 1 ≤ m := (hall _ (Fields.mem_of_get? htype)).pos
    have hm : m ≤ k := by
      rw [htype] at hspan
      change m + 2 ≤ k + 1 at hspan
      omega
    refine yields_node_of_rule hfocus htype ?_
    have hopen : Open code (Within code E k) (fun fs => Fields.get? "type" fs = some (.str "Program")) (.obj true fs)
        { s with focus := .obj true fs } :=
      ⟨hcalm.focus _, ⟨fs, rfl, fun f hf => (hall f hf).mono hm, htype⟩, fun _ => .refl _⟩
    refine (hopen.statementList hE (steady_within (Nat.le_trans hpos hm)) (bounded_visitWith hE k) "body" (by decide) ?_).mono
      fun _ s' h => ⟨h.calm, ?_⟩
    · intro fs t htype
      rw [Fields.get?_set, if_neg (by decide), htype]
    · obtain ⟨fs', hfocus', -, htype'⟩ := h.focus
      exact ⟨fs', hfocus', htype'⟩

end Trees

end Passes

/-! ## Programs -/

/-- The faults of placing probes; a condition whose source is not known has to be printed. -/
def Fault.Placing (unsourced : Prop) : Fault → Prop
  | .tooDeep => False
  | .unprintable _ _ => unsourced
  | _ => True

theorem reading_placing (unsourced : Prop) : CoversReading (Fault.Placing unsourced) := ⟨fun _ => trivial, trivial, trivial⟩

namespace Json

/-- Whether a value that is shown as a condition has its text in the program. -/
def isSourced (code : Option String) (j : Json) : Bool :=
  !j.isNode || match Node.sourceText j code with | .ok none => false | _ => true

/-- Whether the conditions of an object have their text in the program. -/
def conditionsSourced (code : Option String) (fields : Fields Json) : Bool :=
  match Fields.type? fields with
  | some type => (conditionKeys type).all fun key => ((Fields.get? key fields).map (isSourced code)).getD true
  | none => true

/-- All that is shown as a condition has its text in the program. -/
def Sourced (code : Option String) (j : Json) : Prop := j.everyObject (conditionsSourced code) = true

instance (code : Option String) (j : Json) : Decidable (j.Sourced code) := inferInstanceAs (Decidable (_ = _))

theorem depth_pos (j : Json) : 1 ≤ j.depth := by
  cases j <;> simp [depth]

theorem depth_le_of_mem {x : Json} : ∀ {items : List Json}, x ∈ items → x.depth ≤ depth.depthItems items
  | y :: ys, h => by
    rw [depth.depthItems]
    rcases List.mem_cons.1 h with rfl | h
    · exact Nat.le_max_left _ _
    · exact Nat.le_trans (depth_le_of_mem h) (Nat.le_max_right _ _)

theorem depth_le_of_mem_fields {f : String × Json} : ∀ {fields : Fields Json}, f ∈ fields → f.2.depth ≤ depth.depthFields fields
  | (k, y) :: ys, h => by
    rw [depth.depthFields]
    rcases List.mem_cons.1 h with rfl | h
    · exact Nat.le_max_left _ _
    · exact Nat.le_trans (depth_le_of_mem_fields h) (Nat.le_max_right _ _)

end Json

section Programs

variable {unsourced : Prop} {code : Option String}

theorem field_bare (t : Tree) (key : String) : t.bare.field key = (t.field key).bare := by
  cases t with
  | obj seen fs =>
    rw [Tree.bare_obj]
    change (Fields.get? key (Fields.mapValues Tree.bare fs)).getD .null = ((Fields.get? key fs).getD Tree.null).bare
    rw [Fields.get?_mapValues]
    cases Fields.get? key fs <;> rfl
  | _ => rfl

/-- A condition that has its text in the program is shown, also once it is visited. -/
theorem shown_of_isSourced {t : Tree} (h : ¬ unsourced → t.bare.isSourced code = true) (hnode : t.isNode = true) :
    t.Shown code (Fault.Placing unsourced) := by
  intro t' halike
  have hsame : Node.sourceText t'.bare code = Node.sourceText t.bare code := by
    unfold Node.sourceText
    rw [isNode_bare, isNode_bare, halike.node, field_bare, field_bare, halike.range]
  unfold Node.conditionText
  rw [hsame]
  cases hsource : Node.sourceText t.bare code with
  | error e =>
    have hends := ends_sourceText (reading_placing unsourced) t.bare code
    rw [hsource] at hends
    exact hends
  | ok text =>
    cases text with
    | some text => exact ends_ok.2 trivial
    | none =>
      have hu : unsourced := by
        by_contra hno
        have := h hno
        simp [Json.isSourced, isNode_bare, hnode, hsource] at this
      have hprint : EndsIn (printNode t'.bare) (fun _ => True) (Fault.Placing unsourced) := by
        have hends := @ends_printNode True t'.bare fun hno => absurd trivial hno
        refine (hends.mono fun _ _ => trivial).faults fun e he => ?_
        cases e with
        | tooDeep => exact he
        | unprintable => exact hu
        | _ => trivial
      refine ends_bind.2 (ends_ok.2 (hprint.bind fun out _ => ?_))
      cases out <;> trivial

theorem isFresh_ofJson (j : Json) : (ofJson j).isFresh = true := by
  cases j with
  | arr items => 
    rw [Tree.ofJson_arr]
    simp [Tree.isFresh]
  | _ => rfl

/-- A value is within twice its depth: at most one node is put around each. -/
theorem within_ofJson (j : Json) (h : ¬ unsourced → j.Sourced code) :
    Within code (Fault.Placing unsourced) (2 * j.depth) (ofJson j) := by
  induction j using Json.ind with
  | scalar j hj => exact within_of_atom (Nat.le_trans j.depth_pos (by omega)) (by cases j <;> first | rfl | cases hj)
  | arr items ih =>
    rw [Tree.ofJson_arr, within_arr (by rw [Json.depth]; omega), List.forall_mem_map]
    intro x hx
    have hdepth := Json.depth_le_of_mem hx
    exact (ih x hx fun hno => Json.everyObject_arr.1 (h hno) x hx).mono (by rw [Json.depth]; omega)
  | obj fields ih =>
    rw [Tree.ofJson_obj]
    have hspan : span (Fields.get? "type" (Fields.mapValues ofJson fields)) ≤ 2 := by
      unfold span
      split <;> decide
    refine .node (2 * Json.depth.depthFields fields) _ _ (by rw [Json.depth]; omega) ?_ ?_ ?_
    · refine List.forall_mem_map.2 fun f hf => ?_
      have hdepth := Json.depth_le_of_mem_fields hf
      exact (ih f hf fun hno => (Json.everyObject_obj.1 (h hno)).2 f hf).mono (by omega)
    · exact List.forall_mem_map.2 fun f _ => isFresh_ofJson f.2
    · intro key hkey t ht hnode
      rw [Fields.get?_mapValues] at ht hkey
      obtain ⟨v, hv, rfl⟩ := Option.map_eq_some_iff.1 ht
      refine shown_of_isSourced (fun hno => ?_) hnode
      have hown := (Json.everyObject_obj.1 (h hno)).1
      cases htype : Fields.get? "type" fields with
      | none => rw [htype] at hkey; cases hkey
      | some type =>
        rw [htype] at hkey
        cases type with
        | str type =>
          have hall : (conditionKeys type).all fun key => ((Fields.get? key fields).map (Json.isSourced code)).getD true := by
            simpa [Json.conditionsSourced, Fields.type?, htype, Json.string?] using hown
          have := List.all_eq_true.1 hall key hkey
          rw [hv] at this
          simpa using this
        | _ => cases hkey

end Programs

end ScriptTrace
