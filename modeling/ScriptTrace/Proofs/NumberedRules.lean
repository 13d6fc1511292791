import ScriptTrace.Proofs.NumberedPasses

/-!
# Rules that depend on the number of a loop variable

The rules for statements, functions, classes, declarations and assignments keep numbered states numbered, if the visitor
does. What they put around user code declares no loop variable; what they take away declares none that is missed.

* `Visitor.Numbered` : a visitor that keeps numbered states numbered, and marks what it visits;
* `declarators_around`, `declarators_guard`, ... : the loop variables of user code with probes around it;
* `runs_statement`, `runs_statements` : statements, with the probes that wait for their place around them;
* `walks_function`, `walks_classDeclaration`, `walks_assignment`, ... : the rules.
-/

namespace ScriptTrace

open Step

/-- A visitor that keeps numbered states numbered, and marks the nodes that it visits. -/
def Visitor.Numbered (visit : Visitor) : Prop :=
  ∀ {m : Nat} {loose : Bool} {s : Nat → Pass} {parent : Nat → Option Tree}, Pass.Numbered m loose s →
    NumberedOption (Tree.Numbered m true) parent →
      Runs (fun c => visit (parent c)) m loose s fun _ _ s' => ∀ c, (s' c).focus.isNode = true → (s' c).focus.seen = true

/-- Queues of probes that wait for their place. -/
structure Queue.Numbered (m : Nat) (q : Nat → Queue) : Prop where
  before : NumberedList (Waiting m) fun c => (q c).before
  after : NumberedList (Waiting m) fun c => (q c).after

theorem Queue.Numbered.mono {m m' : Nat} {q : Nat → Queue} (h : Numbered m q) (hle : m ≤ m') : Numbered m' q :=
  ⟨h.before.mono fun _ ht => ht.mono hle, h.after.mono fun _ ht => ht.mono hle⟩

section Steps

variable {α β : Type} {m : Nat} {loose : Bool} {s : Nat → Pass} {Q : Nat → (Nat → α) → (Nat → Pass) → Prop}

theorem Step.Runs.discard {act : Nat → Step α} (h : Runs act m loose s Q) :
    Walks (fun c => discard (act c)) m loose s := by
  have hmap (act : Step α) : (Functor.discard act : Step Unit) = (fun _ => ()) <$> act := rfl
  simp only [hmap, map_eq_pure_bind]
  exact h.bind fun m' _ s' _ hs' _ => runs_pure hs' trivial

end Steps

/-! ## Probes around user code -/

section Probes

variable {m : Nat} {loose : Bool} {x : String}

/-- The loop variables of a node that declares none itself are those of its fields. -/
theorem declarators_node {seen : Bool} {type : String} {fields : Fields Tree} (hne : type ≠ "VariableDeclarator") :
    (Tree.obj seen (("type", .str type) :: fields)).declarators x ≤
      (fields.map fun f => if f.1 = "loc" ∨ f.1 = "range" then 0 else f.2.declarators x).sum := by
  have hown : Json.ownLoopVariables (.obj (("type", .str type) :: Fields.mapValues Tree.bare fields)) = [] :=
    if_neg fun heq => hne (Option.some.inj heq)
  have hfields : ∀ fields : Fields Tree, ((Fields.mapValues Tree.bare fields).flatMap fun f => Json.loopVariablesIn f.1 f.2).count x =
      (fields.map fun f => if f.1 = "loc" ∨ f.1 = "range" then 0 else f.2.declarators x).sum := by
    intro fields
    induction fields with
    | nil => rfl
    | cons f fields ih =>
      rw [Fields.mapValues_cons, List.flatMap_cons, List.count_append, ih, List.map_cons, List.sum_cons, Json.loopVariablesIn]
      split <;> rfl
  rw [Tree.declarators, Tree.bare_obj, Fields.mapValues_cons, Tree.bare_str, Json.loopVariables_obj, hown, List.nil_append]
  split
  · exact Nat.zero_le _
  · rw [List.flatMap_cons, ← hfields]
    exact Nat.le_refl _

theorem numbered_block {ts : Nat → List Tree} (h : NumberedList (Tree.Numbered m false) ts) :
    Tree.Numbered m loose fun c => Probe.block (ts c) := by
  obtain ⟨items, rfl, hitems⟩ := h
  refine .of_obj false [("type", fun _ => .str "BlockStatement"), ("body", fun c => .arr (items.map (· c)))] ?_ fun _ => rfl
  exact List.forall_mem_cons.2 ⟨.str _ _, List.forall_mem_singleton.2 (.arr _ items hitems)⟩

theorem declarators_block (ts : List Tree) : (Probe.block ts).declarators x ≤ (Tree.arr ts).declarators x := by
  refine Nat.le_trans (declarators_node (by decide)) (Nat.le_of_eq ?_)
  simp

theorem numbered_around (name : String) {arguments : Nat → List Json} (harguments : NumberedList (Json.Numbered m false) arguments)
    {t : Nat → Tree} (h : Tree.Numbered m false t) : Tree.Numbered m loose fun c => Probe.around name (arguments c) (t c) := by
  obtain ⟨items, rfl, hitems⟩ := harguments
  refine .of_obj true [("type", fun _ => .str "CallExpression"), ("callee", fun _ => .ofProbe (.ident (.str name))),
    ("arguments", fun c => .arr ((items.map (· c)).map .ofProbe ++ [t c]))] ?_ fun _ => rfl
  simp only [List.forall_mem_cons]
  refine ⟨.str _ _, .ofProbe (.const _ _ _), ?_, List.forall_mem_nil _⟩
  refine .of_arr (items.map (fun v c => .ofProbe (v c)) ++ [t]) ?_ fun c => by simp
  exact List.forall_mem_append.2 ⟨List.forall_mem_map.2 fun v hv => .ofProbe (hitems v hv), List.forall_mem_singleton.2 h⟩

theorem declarators_around (name : String) {arguments : List Json} (harguments : ∀ v ∈ arguments, v.loopVariables = []) (t : Tree) :
    (Probe.around name arguments t).declarators x ≤ t.declarators x := by
  have hprobes : (Tree.arr (arguments.map .ofProbe)).declarators x = 0 := by
    rw [Tree.declarators, Tree.bare_arr, Json.loopVariables_items, List.count_nil]
    exact List.forall_mem_map.2 (List.forall_mem_map.2 fun v hv => by rw [Tree.bare_ofProbe, harguments v hv])
  have hcallee : (Tree.ofProbe (.ident (.str name))).declarators x = 0 := Tree.declarators_ofProbe (Json.loopVariables_ident _)
  refine Nat.le_trans (declarators_node (by decide)) (Nat.le_of_eq ?_)
  rw [Tree.declarators_arr, List.map_map] at hprobes
  simp [hcallee, hprobes]

theorem numbered_followed {t : Nat → Tree} (h : Tree.Numbered m false t) {probe : Nat → Json} (hprobe : Json.Numbered m false probe) :
    Tree.Numbered m loose fun c => Probe.followed (t c) (probe c) := by
  refine .of_obj true [("type", fun _ => .str "SequenceExpression"), ("expressions", fun c => .arr [t c, .ofProbe (probe c)])] ?_ fun _ => rfl
  refine List.forall_mem_cons.2 ⟨.str _ _, List.forall_mem_singleton.2 (.of_arr [t, fun c => .ofProbe (probe c)] ?_ fun _ => rfl)⟩
  exact List.forall_mem_cons.2 ⟨h, List.forall_mem_singleton.2 (.ofProbe hprobe)⟩

theorem declarators_followed (t : Tree) {probe : Json} (h : probe.loopVariables = []) :
    (Probe.followed t probe).declarators x ≤ t.declarators x := by
  refine Nat.le_trans (declarators_node (by decide)) (Nat.le_of_eq ?_)
  simp [Tree.declarators_ofProbe h]

theorem numbered_guard {ts : Nat → List Tree} (h : NumberedList (Tree.Numbered m false) ts) {line name : Nat → Json}
    (hline : Json.Numbered m true line) (hname : Json.Numbered m true name) :
    Tree.Numbered m loose fun c => Probe.guard (ts c) (line c) (name c) := by
  obtain ⟨items, rfl, hitems⟩ := h
  have hblock : Tree.Numbered m false fun c => Probe.node "BlockStatement" [("body", .arr (items.map (· c)))] :=
    .of_obj true [("type", fun _ => .str "BlockStatement"), ("body", fun c => .arr (items.map (· c)))]
      (List.forall_mem_cons.2 ⟨.str _ _, List.forall_mem_singleton.2 (.arr _ items hitems)⟩) fun _ => rfl
  refine .of_obj true [("type", fun _ => .str "TryStatement"), ("block", fun c => _), ("handler", fun c => .ofProbe (Probe.handler (line c) (name c))),
    ("finalizer", fun _ => .null)] ?_ fun _ => rfl
  simp only [List.forall_mem_cons]
  exact ⟨.str _ _, hblock, .ofProbe (.handler hline hname), .null _, List.forall_mem_nil _⟩

theorem declarators_guard (ts : List Tree) (line name : Json) :
    (Probe.guard ts line name).declarators x ≤ (Tree.arr ts).declarators x := by
  have hblock : (Probe.node "BlockStatement" [("body", .arr ts)]).declarators x ≤ (Tree.arr ts).declarators x := by
    refine Nat.le_trans (declarators_node (by decide)) (Nat.le_of_eq ?_)
    simp
  have hhandler : (Tree.ofProbe (Probe.handler line name)).declarators x = 0 := Tree.declarators_ofProbe Json.loopVariables_handler
  have hnull : Tree.null.declarators x = 0 := rfl
  refine Nat.le_trans (declarators_node (by decide)) ?_
  simpa [hhandler, hnull] using hblock

end Probes

section Rules

variable {visit : Visitor} (hvisit : visit.Numbered) {m : Nat} {loose : Bool} {s : Nat → Pass} (hs : Pass.Numbered m loose s)

/-! ## Children -/

section Children

include hvisit hs

theorem walks_field (key : String) : Walks (fun _ => Visit.field visit key) m loose s :=
  .look hs (looks_focus (R := Tree.Numbered m loose) hs.focus) fun _ hnode =>
    Runs.inField hs fun _ ht _ _ => (hvisit (hs.withFocus ht) (.some hnode.weaken)).walks

theorem walks_headerField (key : String) : Walks (fun _ => Visit.headerField visit key) m loose s := by
  refine .look hs (looks_child? hs key) fun o ho => ?_
  cases ho with
  | none => exact runs_pure hs trivial
  | @some t ht =>
    obtain ⟨b, hb⟩ := ht.layer.isNode.eq
    have hb (c : Nat) : (t c).isNode = b := hb c
    simp only [hb]
    refine .ite (fun _ => ?_) fun _ => runs_pure hs trivial
    exact Runs.quietly hs (walks_field hvisit (hs.emptyQueue false) key)

theorem walks_eachVisit (hloose : loose = false ∨ ∃ items : Nat → List Tree, ∀ c, (s c).focus = .arr (items c))
    {parent : Nat → Tree} (hparent : Tree.Numbered m true parent) :
    Walks (fun c => discard (eachItem (visit (some (parent c))))) m loose s := by
  refine Runs.discard (Runs.eachItem hs hloose (A := fun _ _ => True) (fun _ h => h) fun m' s' hle hs' => ?_)
  exact (hvisit hs' (.some (hparent.mono hle))).walks

theorem walks_valueOrItems {parent : Nat → Tree} (hparent : Tree.Numbered m true parent) :
    Walks (fun c => Visit.valueOrItems visit (parent c)) m loose s := by
  refine .look hs (looks_focus (R := fun t => Tree.Numbered m loose t ∧ t = fun c => (s c).focus) ⟨hs.focus, rfl⟩) fun t ht => ?_
  obtain ⟨ht, hfocus⟩ := ht
  have hother : Walks (fun c => visit (some (parent c))) m loose s := (hvisit hs (.some hparent)).walks
  cases ht with
  | arr => exact walks_eachVisit hvisit hs (.inr ⟨_, fun c => (congrFun hfocus c).symm⟩) hparent
  | _ => exact hother

theorem walks_fields : Walks (fun _ => Visit.fields visit) m loose s := by
  refine .look hs (looks_focus (R := Tree.Numbered m loose) hs.focus) fun t ht => ?_
  have hnames : Constant fun c => (t c).fieldNames := by
    cases ht with
    | obj _ seen fields => exact ⟨Fields.names fields, funext fun c => Fields.names_at fields c⟩
    | _ => exact constant _
  obtain ⟨names, hnames⟩ := hnames.eq
  simp only [hnames]
  refine (runs_forIn_names names hs fun key m' s' hle hs' => ?_).bind fun _ _ _ _ hs' _ => runs_pure hs' trivial
  refine .ite (fun _ => runs_pure hs' rfl) fun _ => ?_
  refine .look hs' (looks_focus (R := Tree.Numbered m' loose) hs'.focus) fun node hnode => ?_
  have hvisited : Walks (fun c => inField key (Visit.valueOrItems visit (node c))) m' loose s' :=
    Runs.inField hs' fun _ ht _ _ => walks_valueOrItems hvisit (hs'.withFocus ht) hnode.weaken
  exact hvisited.bind fun _ _ _ _ hs'' _ => runs_pure hs'' rfl

end Children

/-! ## Statements -/

/-- The statements with their probes around them, and the loop variables they declare. -/
theorem numbered_weave {ts : Nat → List Tree} (hts : NumberedList (Tree.Numbered m false) ts) {qs : Nat → List Queue}
    (hqs : NumberedList (Queue.Numbered m) qs) :
    NumberedList (Tree.Numbered m false) (fun c => Visit.weave (ts c) (qs c)) ∧
      ∀ c x, (Tree.arr (Visit.weave (ts c) (qs c))).declarators x = (Tree.arr (ts c)).declarators x := by
  obtain ⟨ts, rfl, hts⟩ := hts
  obtain ⟨qs, rfl, hqs⟩ := hqs
  have hprobes {ps : Nat → List Tree} (hps : NumberedList (Waiting m) ps) (c : Nat) (x : String) :
      ((ps c).map (Tree.declarators x)).sum = 0 := by
    obtain ⟨ps, rfl, hall⟩ := hps
    rw [← Tree.declarators_arr, Tree.declarators, Tree.bare_arr, Json.loopVariables_items, List.count_nil]
    exact List.forall_mem_map.2 (List.forall_mem_map.2 fun p hp => (hall p hp).silent c)
  induction ts generalizing qs with
  | nil => exact ⟨.nil, fun _ _ => rfl⟩
  | cons t ts ih =>
    obtain ⟨ht, hts'⟩ := List.forall_mem_cons.1 hts
    cases qs with
    | nil => exact ⟨⟨t :: ts, rfl, hts⟩, fun _ _ => rfl⟩
    | cons q qs =>
      obtain ⟨hq, hqs⟩ := List.forall_mem_cons.1 hqs
      obtain ⟨hnumbered, hcount⟩ := ih hts' qs hqs
      constructor
      · exact (hq.before.mono fun _ h => h.numbered).append (.cons ht ((hq.after.mono fun _ h => h.numbered).append hnumbered))
      · intro c x
        have hrest := hcount c x
        simp only [Tree.declarators_arr] at hrest
        simp only [List.map_cons, Visit.weave, Tree.declarators_arr, List.map_append, List.sum_append, List.sum_cons,
          hprobes hq.before, hprobes hq.after, hrest, Nat.zero_add]

section Statements

include hvisit hs

/-- A statement is marked when it was visited, and its probes wait for their place. -/
theorem runs_statement : Runs (fun _ => Visit.statement visit) m loose s fun m' q s' =>
    Queue.Numbered m' q ∧ ∀ c, (s' c).focus.isNode = true → (s' c).focus.seen = true := by
  have hempty : Queue.Numbered m fun _ => .empty false := ⟨.nil, .nil⟩
  refine .look hs (looks_focus (R := fun t => Tree.Numbered m loose t ∧ t = fun c => (s c).focus) ⟨hs.focus, rfl⟩) fun t ht => ?_
  obtain ⟨ht, hfocus⟩ := ht
  have hfocus (c : Nat) : (s c).focus = t c := (congrFun hfocus c).symm
  obtain ⟨b, hb⟩ := ht.layer.isNode.eq
  have hb (c : Nat) : (t c).isNode = b := hb c
  obtain ⟨seen, hseen⟩ := ht.seen.eq
  simp only [hb, hseen]
  refine .ite (fun hdone => runs_pure hs ⟨hempty, fun c hc => ?_⟩) fun _ => ?_
  · rw [hfocus, hb] at hc
    rw [hfocus, hseen]
    simpa [hc] using hdone
  · refine .known hs (looks_lift (ht.layer.hasTypeIn (Tree.readable m) _)) fun safe => ?_
    refine (Runs.withQueue hs safe (hvisit (hs.emptyQueue safe) .none)
      (R := fun m' a s' => Queue.Numbered m' (fun c => (a c).2) ∧ ∀ c, (s' c).focus.isNode = true → (s' c).focus.seen = true)
      fun m' a s' hs' hmarked => ⟨⟨hs'.before, hs'.after⟩, hmarked⟩).bind fun m' a s' _ hs' hq => runs_pure hs' hq

end Statements

/-- The values a loop runs over declare no more than the value itself. -/
theorem agreed_elements {t : Nat → Tree} (ht : Tree.Numbered m false t) : Agreed (fun items => NumberedList (Tree.Numbered m false) items ∧
    ∀ c x, (Tree.arr (items c)).declarators x ≤ (t c).declarators x) fun c => (layer (t c)).elements := by
  have hstrings (words : List String) : NumberedList (Tree.Numbered m false) (fun _ => words.map Tree.str) ∧
      ∀ (_ : Nat) x, (Tree.arr (words.map Tree.str)).declarators x = 0 := by
    refine ⟨⟨words.map fun w _ => .str w, by simp only [List.map_map, Function.comp_def], List.forall_mem_map.2 fun w _ => .str _ w⟩, fun _ x => ?_⟩
    rw [Tree.declarators, Tree.bare_arr, Json.loopVariables_items, List.count_nil]
    exact List.forall_mem_map.2 (List.forall_mem_map.2 fun _ _ => rfl)
  cases ht with
  | arr _ items h => exact .answer ⟨⟨items, rfl, h⟩, fun _ _ => Nat.le_refl _⟩
  | str _ text =>
    obtain ⟨hlist, hcount⟩ := hstrings (text.toList.map String.singleton)
    rw [List.map_map] at hlist hcount
    exact .answer ⟨hlist, fun c x => (hcount c x).symm ▸ Nat.zero_le _⟩
  | obj _ seen fields =>
    obtain ⟨hlist, hcount⟩ := hstrings (Fields.names fields)
    rw [Fields.names, List.map_map] at hlist hcount
    simp only [layer_obj, Layer.elements, Fields.at, Fields.mapValues, List.map_map]
    exact .answer ⟨hlist, fun c x => (hcount c x).symm ▸ Nat.zero_le _⟩
  | _ => exact .fault _

section Lists

include hvisit

/-- Statements and their probes: what they declare is what the list in focus declares. -/
theorem runs_statements {s : Nat → Pass} (hs : Pass.Numbered m false s) :
    Runs (fun _ => Visit.statements visit) m false s fun m' woven s' =>
      NumberedList (Tree.Numbered m' false) woven ∧ ∀ c x, (Tree.arr (woven c)).declarators x ≤ (s' c).focus.declarators x := by
  refine (Runs.eachItem hs (.inl rfl) (A := Queue.Numbered) (fun hle h => h.mono hle) fun m' s' _ hs' =>
    (runs_statement hvisit hs').mono fun _ _ _ _ h => h.1).bind
    fun m' queues s' _ hs' hqueues => ?_
  refine .look hs' (looks_focus (R := (· = fun c => (s' c).focus)) rfl) fun t ht => ?_
  subst ht
  refine .look hs' (looks_lift (agreed_elements hs'.focus)) fun items hitems => runs_pure hs' ?_
  obtain ⟨hwoven, hcount⟩ := numbered_weave hitems.1 hqueues
  exact ⟨hwoven, fun c x => Nat.le_trans (Nat.le_of_eq (hcount c x)) (hitems.2 c x)⟩

theorem walks_statementList {s : Nat → Pass} (hs : Pass.Numbered m false s) : Walks (fun _ => Visit.statementList visit) m false s := by
  refine (runs_statements hvisit hs).bind fun m' woven s' _ hs' hwoven => ?_
  refine runs_changeList hs' _ (fun _ _ => hwoven.1) fun c items hitems x => ?_
  rw [← hitems]
  exact hwoven.2 c x

end Lists

section Bodies

include hvisit hs

theorem walks_listField (key : String) (hkey : isTextKey key = false) :
    Walks (fun _ => inField key (Visit.statementList visit)) m loose s :=
  Runs.inField hs fun _ ht _ _ => by
    rw [hkey] at ht ⊢
    exact walks_statementList hvisit (hs.withFocus ht)

theorem walks_block : Walks (fun _ => Visit.block visit) m loose s := walks_listField hvisit hs "body" rfl

/-- A field is visited where something is there. -/
theorem walks_optionalField (key : String) {β : Type} {f : Nat → Step β} {R : Nat → (Nat → β) → (Nat → Pass) → Prop}
    (hf : ∀ m' s', m ≤ m' → Pass.Numbered m' loose s' → Runs f m' loose s' R) :
    Runs (fun c => child? key >>= fun o => if o.isSome = true then Visit.field visit key >>= fun _ => f c else f c) m loose s R :=
  Runs.isSome hs key (f := fun c yes => if yes = true then Visit.field visit key >>= fun _ => f c else f c) fun _ =>
    .ite (fun _ => (walks_field hvisit hs key).bind fun m' _ s' hle hs' _ => hf m' s' hle hs') fun _ => hf m s (Nat.le_refl m) hs

theorem walks_switchCase : Walks (fun _ => Visit.switchCase visit) m loose s :=
  walks_optionalField hvisit hs "test" fun _ _ _ hs' => walks_listField hvisit hs' "consequent" rfl

theorem walks_member : Walks (fun _ => Visit.member visit) m loose s := by
  refine .known hs (looks_flag hs "computed") fun b => .ite (fun _ => ?_) fun _ => walks_field hvisit hs "value"
  exact (walks_field hvisit hs "key").bind fun _ _ _ _ hs' _ => walks_field hvisit hs' "value"

end Bodies

section Looking

include hs

/-- The statement under a key is made a block. -/
theorem walks_asBlock (key : String) (hkey : key ∉ ["type", "name", "id"]) (htext : isTextKey key = false) :
    Walks (fun _ => Visit.asBlock key) m loose s := by
  have hlast {s : Nat → Pass} (hs : Pass.Numbered m loose s) : Walks (fun _ => discard (place key)) m loose s :=
    Runs.discard ((looks_place hs key).runs hs (Q := fun _ _ _ => True) fun _ _ => trivial)
  refine .look hs (looks_child? hs key) fun o ho => ?_
  cases ho with
  | none => exact hlast hs
  | @some t ht =>
    obtain ⟨b, hb⟩ := ht.layer.isNode.eq
    have hb (c : Nat) : (t c).isNode = b := hb c
    simp only [hb]
    refine .ite (fun _ => ?_) fun _ => hlast hs
    rw [htext] at ht
    refine .known hs (looks_lift (ht.layer.hasType (Tree.readable m) _)) fun isBlock => .ite (fun _ => hlast hs) fun _ => ?_
    refine .look hs (looks_place hs key) fun v hv => ?_
    obtain ⟨hv, hplace⟩ := hv
    rw [htext] at hv
    refine (runs_setField hs hkey (v := fun c => Probe.block [v c]) (numbered_block (.cons hv .nil)) fun c x => ?_).bind ?_
    · rw [hplace]
      refine Nat.le_trans (declarators_block _) (Nat.le_of_eq ?_)
      simp
    · rintro m' _ s' - hs' ⟨rfl, rfl⟩
      exact hlast hs'

/-- The list in a field of a field is changed to one that declares no more loop variables. -/
theorem walks_nestedList (first second : String) (hsecond : isTextKey second = false) (e : Fault) {f : Nat → List Tree → List Tree}
    (hf : ∀ items, NumberedList (Tree.Numbered m false) items → NumberedList (Tree.Numbered m false) fun c => f c (items c))
    (hcount : ∀ c items, ((s c).focus.field first).field second = .arr items →
      ∀ x, (Tree.arr (f c items)).declarators x ≤ (Tree.arr items).declarators x) :
    Walks (fun c => inField first (inField second (changeList e (f c)))) m loose s := by
  refine Runs.inField hs fun t ht hfirst _ => Runs.inField (hs.withFocus ht) fun u hu hfield _ => ?_
  rw [hsecond] at hu ⊢
  refine (runs_changeList ((hs.withFocus ht).withFocus hu) e hf fun c items hitems => hcount c items ?_).mono fun _ _ _ _ _ => trivial
  rw [hfirst, ← hitems]
  exact hfield c

/-! ## Functions -/

/-- The expression that an arrow function answers is put into a block. -/
theorem walks_arrowBody : Walks (fun _ => Visit.arrowBody) m loose s := by
  refine .look hs (looks_child hs "body") fun body hbody => ?_
  refine .known hs (looks_lift (hbody.layer.hasType (Tree.readable m) _)) fun isBlock => .ite (fun _ => runs_pure hs trivial) fun _ => ?_
  refine .look hs (looks_place hs "body") fun v hv => ?_
  obtain ⟨hv, hplace⟩ := hv
  have hreturned : Tree.Numbered m false fun c => .obj false [("type", .str "ReturnStatement"), ("argument", v c), ("loc", (body c).field "loc")] := by
    refine .of_obj false [("type", fun _ => .str "ReturnStatement"), ("argument", v), ("loc", fun c => (body c).field "loc")] ?_ fun _ => rfl
    simp only [List.forall_mem_cons]
    exact ⟨.str _ _, hv, hbody.field "loc", List.forall_mem_nil _⟩
  refine (runs_setField hs (by decide) (numbered_block (.cons hreturned .nil)) fun c x => ?_).bind ?_
  · rw [hplace]
    -- the position of the body is copied, but no declarator is looked for in a position
    have hreturned : (Tree.obj false [("type", .str "ReturnStatement"), ("argument", v c), ("loc", (body c).field "loc")]).declarators x ≤
        (v c).declarators x := by
      refine Nat.le_trans (declarators_node (by decide)) (Nat.le_of_eq ?_)
      simp
    refine Nat.le_trans (declarators_block _) ?_
    simpa using hreturned
  · rintro m' _ s' - hs' ⟨rfl, rfl⟩
    exact (runs_setField hs' (by decide) (.bool _ false) fun _ _ => Nat.zero_le _).walks

theorem looks_paramNames : Looks (fun _ => Visit.paramNames) s (NumberedList (Json.Numbered m true)) := by
  refine (looks_plainField hs "params").bind fun params hparams => ?_
  simp only [hparams.truthy]
  refine .ite (fun _ => ?_) fun _ => looks_pure .nil
  exact (looks_lift (hparams.layer.elements (Json.readable m))).bind fun _ hitems => looks_lift (agreed_allBindingNames hitems)

omit hs in
theorem looks_directiveCount {ts : Nat → List Tree} (hts : NumberedList (Tree.Numbered m false) ts) :
    Looks (fun c => Visit.directiveCount (ts c)) s Constant := by
  obtain ⟨ts, rfl, hts⟩ := hts
  induction ts with
  | nil => exact looks_pure (constant _)
  | cons t ts ih =>
    obtain ⟨ht, hts⟩ := List.forall_mem_cons.1 hts
    refine (looks_plain ht).bind fun j hj => .test (looks_lift (hj.layer.flag (Json.readable m) _)) ?_ (looks_pure (constant _))
    exact (ih hts).known fun n => looks_pure (constant _)

omit hs in
theorem looks_fallsOff {ts : Nat → List Tree} (hts : NumberedList (Tree.Numbered m false) ts) :
    Looks (fun c => Visit.fallsOff (ts c)) s Constant := by
  obtain ⟨ts, rfl, hts⟩ := hts
  simp only [Visit.fallsOff, List.getLast?_map]
  cases hlast : ts.getLast? with
  | none => exact looks_pure (constant _)
  | some t =>
    have ht := hts t (List.mem_of_getLast? hlast)
    refine (looks_resolve ht).bind fun _ h => ?_
    subst h
    exact (looks_lift (ht.layer.hasType (Tree.readable m) _)).known fun b => looks_pure (constant _)

/-- The body of a function with its probes declares what the statements declare. -/
theorem looks_instrumented {name : Nat → Json} (hname : Json.Numbered m true name) {ts : Nat → List Tree}
    (hts : NumberedList (Tree.Numbered m false) ts) :
    Looks (fun c => Visit.instrumented (name c) (ts c)) s fun body => NumberedList (Tree.Numbered m false) body ∧
      ∀ c x, (Tree.arr (body c)).declarators x ≤ (Tree.arr (ts c)).declarators x := by
  refine (looks_paramNames hs).bind fun names hnames => (looks_line hs).bind fun line hline => (looks_directiveCount hts).known fun count => ?_
  have hentry : Tree.Numbered m false fun c => .ofProbe (Probe.called (line c) (name c) (names c)) := .ofProbe (.called hline hname hnames)
  have hsplit : NumberedList (Tree.Numbered m false) (fun c => (ts c).take count) ∧
      NumberedList (Tree.Numbered m false) fun c => (ts c).drop count := by
    obtain ⟨ts, rfl, hall⟩ := hts
    exact ⟨⟨ts.take count, by simp only [List.map_take], fun t ht => hall t (List.mem_of_mem_take ht)⟩,
      ⟨ts.drop count, by simp only [List.map_drop], fun t ht => hall t (List.mem_of_mem_drop ht)⟩⟩
  obtain ⟨hdirectives, hrest⟩ := hsplit
  have hguard {rest : Nat → List Tree} (hrest : NumberedList (Tree.Numbered m false) rest)
      (hcount : ∀ c x, (Tree.arr (rest c)).declarators x ≤ (Tree.arr ((ts c).drop count)).declarators x) :
      Looks (fun c => do return (ts c).take count ++ [Tree.ofProbe (Probe.called (line c) (name c) (names c)), Probe.guard (rest c) (← endLine) (name c)])
        s fun body => NumberedList (Tree.Numbered m false) body ∧
          ∀ c x, (Tree.arr (body c)).declarators x ≤ (Tree.arr (ts c)).declarators x := by
    refine (looks_endLine hs).bind fun endLine hend => looks_pure ⟨?_, fun c x => ?_⟩
    · exact hdirectives.append (.cons hentry (.cons (numbered_guard hrest hend hname) .nil))
    · have hcalled : (Tree.ofProbe (Probe.called (line c) (name c) (names c))).declarators x = 0 :=
        Tree.declarators_ofProbe Json.loopVariables_called
      have hguarded := declarators_guard (x := x) (rest c) (endLine c) (name c)
      have hparts : ((ts c).map (Tree.declarators x)).sum =
          (((ts c).take count).map (Tree.declarators x)).sum + (((ts c).drop count).map (Tree.declarators x)).sum := by
        rw [← List.sum_append, ← List.map_append, List.take_append_drop]
      have hrest := hcount c x
      simp only [Tree.declarators_arr] at hguarded hrest
      simp only [Tree.declarators_arr, List.map_append, List.sum_append, List.map_cons, List.map_nil, List.sum_cons, List.sum_nil,
        hcalled, hparts]
      omega
  refine (looks_fallsOff hrest).known fun falls => .ite (fun _ => ?_) fun _ => hguard hrest fun _ _ => Nat.le_refl _
  refine (looks_endLine hs).bind fun endLine hend => hguard (hrest.append (.cons (.ofProbe (.returned hend)) .nil)) fun c x => ?_
  have hreturned : (Tree.ofProbe (Probe.returned (endLine c))).declarators x = 0 :=
    Tree.declarators_ofProbe (Json.loopVariables_statement _ (List.forall_mem_singleton.2 (Json.loopVariables_snapshot Json.loopVariables_voidZero)))
  simp [hreturned]

theorem looks_name {parent : Nat → Option Tree} (hparent : NumberedOption (Tree.Numbered m true) parent) :
    Looks (fun c => Visit.name (parent c)) s (Json.Numbered m true) := by
  refine (looks_focus (R := Tree.Numbered m loose) hs.focus).bind fun _ ht => (looks_plain ht).bind fun node hnode => ?_
  have hname {parent : Nat → Option Json} (hparent : NumberedOption (Json.Numbered m true) parent) :
      Looks (fun c => do (functionName (← get).classes (node c) (parent c))) s (Json.Numbered m true) := by
    refine (looks_get (R := (· = s)) rfl).bind fun _ h => ?_
    subst h
    exact looks_lift (hnode.functionName hs.classes hparent)
  cases hparent with
  | none => exact hname .none
  | @some p hp =>
    have hplain : Looks (fun c => some <$> plain (p c)) s (NumberedOption (Json.Numbered m true)) := by
      simp only [map_eq_pure_bind]
      exact (looks_plain hp).bind fun _ hj => looks_pure (.some hj)
    exact hplain.bind fun _ hj => hname hj

end Looking

section FunctionRules

include hvisit hs

theorem walks_params : Walks (fun _ => Visit.params visit) m loose s := by
  refine .known hs (looks_flag hs "params") fun b => .ite (fun _ => ?_) fun _ => runs_pure hs trivial
  refine .look hs (looks_focus (R := Tree.Numbered m loose) hs.focus) fun node hnode => Runs.discard ?_ (Q := fun _ _ _ => True)
  refine Runs.inField hs fun _ ht _ _ => (Runs.eachItem (hs.withFocus ht) (.inl rfl) (A := fun _ _ => True) (fun _ h => h)
    fun m' s' hle hs' => ?_).walks
  exact Runs.quietly hs' ((hvisit (hs'.emptyQueue false) (.some (hnode.weaken.mono hle))).mono fun _ _ _ _ _ => trivial)

/-- The statements of a function and their probes. -/
theorem runs_bodyStatements : Runs (fun _ => inField "body" (inField "body" (Visit.statements visit))) m loose s fun m' woven s' =>
    NumberedList (Tree.Numbered m' false) woven ∧
      ∀ c x, (Tree.arr (woven c)).declarators x ≤ (((s' c).focus.field "body").field "body").declarators x := by
  refine Runs.inField hs fun t ht _ hfirst => Runs.inField (hs.withFocus ht) fun u hu _ hsecond => ?_
  refine (runs_statements hvisit ((hs.withFocus ht).withFocus hu)).mono fun m' woven s' _ hwoven => ⟨hwoven.1, fun c x => ?_⟩
  dsimp only
  rw [hfirst, hsecond]
  exact hwoven.2 c x

theorem walks_function {parent : Nat → Option Tree} (hparent : NumberedOption (Tree.Numbered m true) parent) :
    Walks (fun c => Visit.function visit (parent c)) m loose s := by
  refine (walks_arrowBody hs).bind fun m₁ _ s₁ hle₁ hs₁ _ => .look hs₁ (looks_child hs₁ "body") fun body hbody => ?_
  obtain ⟨seen, hseen⟩ := hbody.seen.eq
  simp only [hseen]
  refine .ite (fun _ => runs_pure hs₁ trivial) fun _ => ?_
  have hmark : Walks (fun _ => inField "body" mark) m₁ loose s₁ := Runs.inField hs₁ fun _ ht _ _ => (runs_mark (hs₁.withFocus ht)).walks
  refine hmark.bind fun m₂ _ s₂ hle₂ hs₂ _ => ?_
  have hparent : NumberedOption (Tree.Numbered m₂ true) parent := hparent.mono fun _ h => h.mono (Nat.le_trans hle₁ hle₂)
  refine .look hs₂ (looks_name hs₂ hparent) fun name hname => (walks_params hvisit hs₂).bind fun m₃ _ s₃ hle₃ hs₃ _ => ?_
  refine (runs_bodyStatements hvisit hs₃).bind fun m₄ woven s₄ hle₄ hs₄ hwoven => ?_
  have hname : Json.Numbered m₄ true name := hname.mono (Nat.le_trans hle₃ hle₄)
  refine .look hs₄ (looks_instrumented hs₄ hname hwoven.1) fun rest hrest => ?_
  refine walks_nestedList hs₄ "body" "body" rfl _ (fun _ _ => hrest.1) fun c items hitems x => ?_
  rw [← hitems]
  exact Nat.le_trans (hrest.2 c x) (hwoven.2 c x)

theorem walks_returnStatement : Walks (fun _ => Visit.returnStatement visit) m loose s := by
  refine walks_optionalField hvisit hs "argument" fun m' s' hle hs' => .look hs' (looks_line hs') fun line hline => ?_
  have hset (v : Nat → Tree) (hv : Tree.Numbered m' false v) (hcount : ∀ c x, (v c).declarators x ≤ ((s' c).focus.field "argument").declarators x) :
      Walks (fun c => setField "argument" (Probe.result (line c) (v c))) m' loose s' := by
    refine (runs_setField hs' (by decide) (numbered_around _ (.cons hline.literal .nil) hv) fun c x => ?_).walks
    exact Nat.le_trans (declarators_around _ (List.forall_mem_singleton.2 (Json.loopVariables_literal _)) _) (hcount c x)
  have hvoid : Walks (fun c => setField "argument" (Probe.result (line c) (.ofProbe .voidZero))) m' loose s' :=
    hset _ (.ofProbe (.const _ _ _)) fun _ _ => Nat.le_trans (Nat.le_of_eq (Tree.declarators_ofProbe Json.loopVariables_voidZero)) (Nat.zero_le _)
  have hplace : Walks (fun c => place "argument" >>= fun v => setField "argument" (Probe.result (line c) v)) m' loose s' :=
    .look hs' (looks_place hs' "argument") fun v hv => hset v hv.1 fun c x => Nat.le_of_eq (by rw [hv.2])
  refine .look hs' (looks_child? hs' "argument") fun o ho => ?_
  cases ho with
  | none => exact hvoid
  | some _ => exact hplace

end FunctionRules

/-! ## Classes -/

section ClassRules

include hvisit hs

theorem walks_classParts {name : Nat → Json} (hname : Json.Numbered m true name) :
    Walks (fun c => Visit.classParts visit (name c)) m loose s := by
  refine walks_optionalField hvisit hs "superClass" fun m' s' hle hs' => Runs.inClass hs' ?_
  have hs' := hs'.withClasses (Nat.le_refl m') (.cons (hname.mono hle) hs'.classes)
  refine Runs.inField hs' fun t ht _ _ => ?_
  have hbody := hs'.withFocus ht
  refine .known hbody (looks_flag hbody "body") fun b => .ite (fun _ => ?_) fun _ => runs_pure hbody trivial
  refine .look hbody (looks_focus (R := Tree.Numbered m' false) ht) fun body hparent => Runs.discard (Q := fun _ _ _ => True) ?_
  exact Runs.inField hbody fun _ hu _ _ => (Runs.eachItem (hbody.withFocus hu) (.inl rfl) (A := fun _ _ => True) (fun _ h => h)
    fun m'' s'' hle hs'' => (hvisit hs'' (.some (hparent.weaken.mono hle))).walks).walks

omit hvisit in
theorem looks_className : Looks (fun _ => Visit.className) s (Json.Numbered m true) := by
  refine (looks_plainField hs "id").bind fun id hid => ?_
  simp only [hid.truthy]
  exact .ite (fun _ => looks_lift (hid.layer.require "name")) fun _ => looks_pure (.str _ _)

theorem walks_classDeclaration : Walks (fun _ => Visit.classDeclaration visit) m loose s := by
  refine .look hs (looks_className hs) fun name hname => (walks_classParts hvisit hs hname).bind fun m' _ s' hle hs' _ => ?_
  refine .look hs' (looks_line hs') fun line hline => runs_queueBefore hs' (.ofProbe (.declared hline (hname.mono hle)) (fun _ => ⟨_, rfl⟩) fun c => ?_)
  exact Json.loopVariables_statement _ (List.forall_mem_singleton.2 (Json.loopVariables_literal _))

theorem walks_classExpression {parent : Nat → Option Tree} (hparent : NumberedOption (Tree.Numbered m true) parent) :
    Walks (fun c => Visit.classExpression visit (parent c)) m loose s :=
  .look hs (looks_name hs hparent) fun _ hname => walks_classParts hvisit hs hname

theorem walks_namelessClass {parent : Nat → Option Tree} (hparent : NumberedOption (Tree.Numbered m true) parent) :
    Walks (fun c => Visit.namelessClass visit (parent c)) m loose s := by
  cases hparent with
  | none => exact walks_classParts hvisit hs (.null _)
  | some h => exact .look hs (looks_plain h) fun _ hname => walks_classParts hvisit hs hname

end ClassRules

/-! ## Declarations and assignments -/

omit hs in
/-- The record of variables, which declares no loop variable. -/
theorem waiting_localsStatement (kind : String) {line : Nat → Json} (hline : Json.Numbered m true line) {targets : Nat → List Target}
    (htargets : NumberedList (Target.Numbered m) targets) :
    Waiting m fun c => .ofProbe (Probe.localsStatement kind (line c) (targets c)) := by
  refine .ofProbe (.localsStatement kind hline htargets) (fun _ => ⟨_, rfl⟩) fun c => ?_
  obtain ⟨ts, rfl, hts⟩ := htargets
  exact Json.loopVariables_expressionStatement (Json.loopVariables_locals kind (List.forall_mem_map.2 fun t ht => (hts t ht).silent c))

section AssignmentRules

include hvisit hs

theorem walks_declarator : Walks (fun _ => Visit.declarator visit) m loose s := by
  refine walks_optionalField hvisit hs "init" fun m' s' hle hs' => ?_
  refine .look hs' (looks_get (R := (· = s')) rfl) fun _ h => ?_
  subst h
  obtain ⟨allows, hallows⟩ := hs'.allows.eq
  simp only [hallows]
  refine .ite (fun _ => ?_) fun _ => runs_pure hs' trivial
  refine .look hs' (looks_place hs' "id") fun id hid => .look hs' (looks_plain hid.1) fun pattern hpattern => ?_
  refine .look hs' (looks_lift hpattern.bindingNames) fun names hnames => ?_
  obtain ⟨names, rfl, hall⟩ := hnames
  refine (runs_forIn names hs' fun name hname m'' s'' hle' hs'' => ?_).bind fun _ _ _ _ hs'' _ => runs_pure hs'' trivial
  refine .look hs'' (looks_line hs'') fun line hline => ?_
  have hwaiting := waiting_localsStatement "declare" hline (.cons ((hall name hname).mono hle').named .nil)
  exact (runs_queueAfter hs'' hwaiting).bind fun _ _ _ _ hs'' _ => runs_pure hs'' rfl

theorem walks_declaration : Walks (fun _ => Visit.declaration visit) m loose s :=
  Runs.discard (Q := fun _ _ _ => True) <| Runs.inField hs fun _ ht _ _ => (Runs.eachItem (hs.withFocus ht) (.inl rfl) (A := fun _ _ => True)
    (fun _ h => h) fun _ _ _ hs' => walks_declarator hvisit hs').walks

omit hvisit in
theorem walks_queueAssign (key : String) : Walks (fun _ => Visit.queueAssign key) m loose s := by
  refine .look hs (looks_place hs key) fun target htarget => .look hs (looks_plain htarget.1) fun j hj => ?_
  refine .look hs (looks_lift hj.targetsOf) fun targets htargets => .look hs (looks_get (R := (· = s)) rfl) fun _ h => ?_
  subst h
  obtain ⟨allows, hallows⟩ := hs.allows.eq
  have hempty : Constant fun c => (targets c).isEmpty := by
    obtain ⟨ts, rfl, -⟩ := htargets
    exact ⟨ts.isEmpty, funext fun c => List.isEmpty_map⟩
  obtain ⟨empty, hempty⟩ := hempty.eq
  simp only [hallows, hempty]
  refine .ite (fun _ => ?_) fun _ => runs_pure hs trivial
  exact .look hs (looks_line hs) fun line hline => runs_queueAfter hs (waiting_localsStatement "assign" hline htargets)

theorem walks_assignment : Walks (fun _ => Visit.assignment visit) m loose s :=
  (walks_field hvisit hs "left").bind fun _ _ _ _ hs' _ => (walks_field hvisit hs' "right").bind fun _ _ _ _ hs'' _ =>
    walks_queueAssign hs'' "left"

theorem walks_update : Walks (fun _ => Visit.update visit) m loose s :=
  (walks_field hvisit hs "argument").bind fun _ _ _ _ hs' _ => walks_queueAssign hs' "argument"

end AssignmentRules

end Rules

end ScriptTrace
