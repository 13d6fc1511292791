import ScriptTrace.Proofs.NumberedRules

/-!
# Visits that depend on the number of a loop variable

The rules for output, branches and loops keep numbered states numbered. Only the rule for counted loops introduces a loop
variable: it takes a fresh number, and adds the declarator named by it to the loop's initializer. The visitor keeps
numbered states numbered, whatever the depth it is made for, and a node that it has visited without a fault is marked.

* `walks_call`, `walks_branch`, `walks_loop`, `walks_countedLoop` : the rules;
* `walks_freshDeclarator` : the declarator of a new loop variable;
* `numbered_visitWith` : the visitor.
-/

namespace ScriptTrace

open Step

/-! ## Words -/

section Words

variable {m : Nat} {loose : Bool} {o : Nat → Option Json}

/-- Whether a text is a certain word does not depend on the number, if the word can be no name of a loop variable. -/
theorem NumberedOption.isWord (ho : NumberedOption (Json.Numbered m loose) o) {word : String} (hword : '_' ∉ word.toList) :
    Constant fun c => (o c).bind Json.string? == Option.some word := by
  cases ho with
  | none => exact constant _
  | @some j hj =>
    have hstring (j : Json) : j.string? = Option.some word ↔ j = .str word := by
      cases j <;> simp [Json.string?]
    refine ⟨(j 0).string? == Option.some word, funext fun c => ?_⟩
    rw [Option.bind_some, Bool.eq_iff_iff, beq_iff_eq, beq_iff_eq, hstring, hstring]
    exact hj.eq_str hword c

theorem NumberedOption.isWordOf (ho : NumberedOption (Json.Numbered m loose) o) {words : List String} (hwords : ∀ w ∈ words, '_' ∉ w.toList) :
    Constant fun c => (((o c).bind Json.string?).map words.contains).getD false := by
  have hany (words : List String) (found : Option String) :
      (found.map words.contains).getD false = words.any fun w => found == Option.some w := by
    cases found with
    | none => simp
    | some text => rw [Option.map_some, Option.getD_some, List.contains_eq_any_beq]; rfl
  simp only [hany]
  induction words with
  | nil => exact constant _
  | cons w words ih =>
    obtain ⟨hw, hwords⟩ := List.forall_mem_cons.1 hwords
    obtain ⟨first, hfirst⟩ := (ho.isWord hw).eq
    obtain ⟨rest, hrest⟩ := (ih hwords).eq
    exact ⟨first || rest, funext fun c => by rw [List.any_cons, hfirst, hrest]⟩

/-- Whether a callee is one of the console's methods does not depend on the number: these have other names. -/
theorem agreed_isConsole {j : Nat → Json} (h : Json.Numbered m loose j) : Agreed Constant fun c => Visit.isConsole (j c) := by
  have hread := Json.readable m
  refine (h.layer.hasType hread _).known fun isMember => (h.layer.flag hread _).known fun computed => .ite (fun _ => .pure (constant _)) fun _ => ?_
  refine (h.layer.require "object").bind fun object hobject => (hobject.layer.optional hread "type").bind fun type htype => ?_
  obtain ⟨b, hb⟩ := (htype.isWord (show '_' ∉ "Identifier".toList by decide)).eq
  simp only [bne, hb]
  refine .ite (fun _ => .pure (constant _)) fun _ => (hobject.layer.require "name").bind fun name hname => ?_
  obtain ⟨b', hb'⟩ := (NumberedOption.isWord (.some hname) (show '_' ∉ "console".toList by decide)).eq
  simp only [Option.bind_some] at hb'
  simp only [hb']
  refine .ite (fun _ => .pure (constant _)) fun _ => (h.layer.require "property").bind fun property hproperty => ?_
  exact (hproperty.layer.optional hread "name").bind fun method hmethod => .pure (hmethod.isWordOf (by decide))

end Words

section Visits

variable {visit : Visitor} (hvisit : visit.Numbered) {m : Nat} {loose : Bool} {s : Nat → Pass} (hs : Pass.Numbered m loose s)

include hvisit hs

/-! ## Output -/

theorem walks_call : Walks (fun _ => Visit.call visit) m loose s := by
  refine (walks_fields hvisit hs).bind fun m' _ s' hle hs' _ => .look hs' (looks_place hs' "callee") fun callee hcallee => ?_
  refine .look hs' (looks_plain hcallee.1) fun j hj => .known hs' (looks_lift (agreed_isConsole hj)) fun b => .ite (fun _ => ?_) fun _ =>
    runs_pure hs' trivial
  refine .look hs' (looks_place hs' "arguments") fun arguments harguments => ?_
  obtain ⟨harguments, hplace⟩ := harguments
  refine (runs_setField hs' (by decide) (.ofProbe (.const _ _ _)) fun c x => ?_).bind ?_
  · exact Nat.le_trans (Nat.le_of_eq (Tree.declarators_ofProbe (Json.loopVariables_ident _))) (Nat.zero_le _)
  · rintro m'' _ s'' - hs'' ⟨rfl, rfl⟩
    refine .look hs'' (looks_line hs'') fun line hline => ?_
    have hnode : Tree.Numbered m'' false fun c => Probe.node "ArrayExpression" [("elements", arguments c)] :=
      .of_obj true [("type", fun _ => .str "ArrayExpression"), ("elements", arguments)]
        (List.forall_mem_cons.2 ⟨.str _ _, List.forall_mem_singleton.2 harguments⟩) fun _ => rfl
    have hlist : Tree.Numbered m'' false fun c => .arr [.ofProbe (.literal (line c)), Probe.node "ArrayExpression" [("elements", arguments c)]] :=
      .of_arr [fun c => .ofProbe (.literal (line c)), _] (List.forall_mem_cons.2 ⟨.ofProbe hline.literal, List.forall_mem_singleton.2 hnode⟩)
        fun _ => rfl
    refine (runs_setField hs'' (by decide) ?_ fun c x => ?_).walks
    · exact hlist
    rw [Tree.field_setField (by decide), hplace]
    have hliteral : (Tree.ofProbe (.literal (line c))).declarators x = 0 := Tree.declarators_ofProbe (Json.loopVariables_literal _)
    have hprinted : (Probe.node "ArrayExpression" [("elements", arguments c)]).declarators x ≤ (arguments c).declarators x := by
      refine Nat.le_trans (declarators_node (by decide)) (Nat.le_of_eq ?_)
      simp
    simpa [hliteral] using hprinted

/-! ## Branches -/

omit hvisit in
/-- A statement is made a block where it is there. -/
theorem walks_optionalBlock (key : String) (hkey : key ∉ ["type", "name", "id"]) (htext : isTextKey key = false) {β : Type} {f : Nat → Step β}
    {R : Nat → (Nat → β) → (Nat → Pass) → Prop} (hf : ∀ m' s', m ≤ m' → Pass.Numbered m' loose s' → Runs f m' loose s' R) :
    Runs (fun c => child? key >>= fun o => if o.isSome = true then Visit.asBlock key >>= fun _ => f c else f c) m loose s R :=
  Runs.isSome hs key (f := fun c yes => if yes = true then Visit.asBlock key >>= fun _ => f c else f c) fun _ =>
    .ite (fun _ => (walks_asBlock hs key hkey htext).bind fun m' _ s' hle hs' _ => hf m' s' hle hs') fun _ => hf m s (Nat.le_refl m) hs

theorem walks_branch : Walks (fun _ => Visit.branch visit) m loose s := by
  refine (walks_field hvisit hs "test").bind fun m₁ _ s₁ _ hs₁ _ => .look hs₁ (looks_place hs₁ "test") fun test htest => ?_
  obtain ⟨htest, hplace⟩ := htest
  refine .look hs₁ (looks_conditionText hs₁ htest) fun text htext => .look hs₁ (looks_line hs₁) fun line hline => ?_
  have hshown : NumberedList (Json.Numbered m₁ false) fun c => [Json.literal (text c), Json.literal (line c)] :=
    .cons htext.literal (.cons hline.literal .nil)
  refine (runs_setField hs₁ (by decide) (v := fun c => Probe.test (text c) (line c) (test c)) (numbered_around _ hshown htest) fun c x => ?_).bind
    fun m₂ _ s₂ _ hs₂ _ => ?_
  · rw [hplace]
    exact declarators_around _ (List.forall_mem_cons.2 ⟨Json.loopVariables_literal _, List.forall_mem_singleton.2 (Json.loopVariables_literal _)⟩) _
  refine (walks_asBlock hs₂ "consequent" (by decide) rfl).bind fun m₃ _ s₃ _ hs₃ _ => ?_
  refine walks_optionalBlock hs₃ "alternate" (by decide) rfl fun m₄ s₄ _ hs₄ => ?_
  refine (walks_field hvisit hs₄ "consequent").bind fun m₅ _ s₅ _ hs₅ _ => 
    Runs.isSome hs₅ "alternate" (f := fun _ yes => if yes = true then Visit.field visit "alternate" else pure ()) fun _ => ?_
  exact .ite (fun _ => walks_field hvisit hs₅ "alternate") fun _ => runs_pure hs₅ trivial

/-! ## Loops -/

omit hvisit hs

/-- Probes that declare no loop variable. -/
structure Silent (m : Nat) (j : Nat → Json) : Prop where
  numbered : Json.Numbered m false j
  silent (c : Nat) : (j c).loopVariables = []

theorem silent_locals (kind : String) {line : Nat → Json} (hline : Json.Numbered m true line) {targets : Nat → List Target}
    (htargets : NumberedList (Target.Numbered m) targets) : Silent m fun c => Probe.locals kind (line c) (targets c) := by
  refine ⟨.locals kind hline htargets, fun c => ?_⟩
  obtain ⟨ts, rfl, hts⟩ := htargets
  exact Json.loopVariables_locals kind (List.forall_mem_map.2 fun t ht => (hts t ht).silent c)

theorem silent_localsStatement (kind : String) {line : Nat → Json} (hline : Json.Numbered m true line) {targets : Nat → List Target}
    (htargets : NumberedList (Target.Numbered m) targets) : Silent m fun c => Probe.localsStatement kind (line c) (targets c) :=
  have h := silent_locals kind hline htargets
  ⟨h.numbered.expressionStatement, fun c => Json.loopVariables_expressionStatement (h.silent c)⟩

theorem agreed_declaredNames {j : Nat → Json} (h : Json.Numbered m loose j) :
    Agreed (NumberedList (Json.Numbered m true)) fun c => Visit.declaredNames (j c) := by
  refine (h.layer.require "declarations").bind fun ds hds => (hds.layer.elements (Json.readable m)).bind fun items hitems => ?_
  refine (Agreed.mapM hitems (P := NumberedList (Json.Numbered m true)) fun d hd => ?_).bind fun _ hnames => .pure hnames.flatten
  exact (hd.layer.require "id").bind fun _ hid => hid.bindingNames

theorem agreed_iterationProbes {line left : Nat → Json} (hline : Json.Numbered m true line) (hleft : Json.Numbered m loose left) :
    Agreed (NumberedList (Silent m)) fun c => Visit.iterationProbes (line c) (left c) := by
  obtain ⟨b, hb⟩ := hleft.layer.isNode.eq
  have hb (c : Nat) : (left c).isNode = b := hb c
  unfold Visit.iterationProbes
  simp only [hb]
  refine .ite (fun _ => .pure .nil) fun _ => .test (hleft.layer.hasType (Json.readable m) _) ?_ ?_
  · exact (agreed_declaredNames hleft).bind fun _ hnames => .pure (hnames.map fun n hn => silent_localsStatement "declare" hline (.cons hn.named .nil))
  · refine hleft.targetsOf.bind fun targets htargets => ?_
    have hprobe := silent_localsStatement "assign" hline htargets
    obtain ⟨ts, rfl, hts⟩ := htargets
    cases ts with
    | nil => exact .pure .nil
    | cons t ts => exact .pure (.cons hprobe .nil)

/-- Probes that run at the start of a list of statements. -/
theorem numbered_prepend {probes : Nat → List Json} (hprobes : NumberedList (Silent m) probes) {items : Nat → List Tree}
    (hitems : NumberedList (Tree.Numbered m false) items) :
    NumberedList (Tree.Numbered m false) (fun c => (probes c).map .ofProbe ++ items c) ∧
      ∀ c x, (Tree.arr ((probes c).map .ofProbe ++ items c)).declarators x ≤ (Tree.arr (items c)).declarators x := by
  refine ⟨(hprobes.map fun j hj => .ofProbe hj.numbered).append hitems, fun c x => ?_⟩
  have hzero : (((probes c).map Tree.ofProbe).map (Tree.declarators x)).sum = 0 := by
    obtain ⟨ps, rfl, hps⟩ := hprobes
    rw [← Tree.declarators_arr, Tree.declarators, Tree.bare_arr, Json.loopVariables_items, List.count_nil]
    refine List.forall_mem_map.2 (List.forall_mem_map.2 (List.forall_mem_map.2 fun p hp => ?_))
    rw [Tree.bare_ofProbe, (hps p hp).silent]
  refine Nat.le_of_eq ?_
  rw [Tree.declarators_arr, Tree.declarators_arr, List.map_append, List.sum_append, hzero, Nat.zero_add]

include hs in
theorem walks_prepend (e : Fault) {probes : Nat → List Json} (hprobes : NumberedList (Silent m) probes) :
    Walks (fun c => inField "body" (inField "body" (changeList e ((probes c).map .ofProbe ++ ·)))) m loose s := by
  have hempty : NumberedList (Tree.Numbered m false) fun _ => [] := .nil
  refine walks_nestedList hs "body" "body" rfl e (fun items hitems => (numbered_prepend hprobes hitems).1) fun c items _ x => ?_
  have h := (numbered_prepend hprobes hempty).2 c x
  rw [List.append_nil] at h
  simp only [Tree.declarators_arr, List.map_append, List.sum_append, List.map_nil, List.sum_nil] at h ⊢
  omega

include hs in
theorem walks_prependOne (e : Fault) {probe : Nat → Json} (hprobe : Silent m probe) :
    Walks (fun c => inField "body" (inField "body" (changeList e (.ofProbe (probe c) :: ·)))) m loose s := by
  have hprobes : NumberedList (Silent m) fun c => [probe c] := .cons hprobe .nil
  simpa only [List.map_cons, List.map_nil, List.singleton_append] using walks_prepend hs e hprobes

include hvisit hs

theorem walks_loop (type : String) : Walks (fun _ => Visit.loop visit type) m loose s := by
  refine (walks_headerField hvisit hs "left").bind fun m₁ _ s₁ _ hs₁ _ => (walks_headerField hvisit hs₁ "right").bind fun m₂ _ s₂ _ hs₂ _ => ?_
  refine (walks_headerField hvisit hs₂ "test").bind fun m₃ _ s₃ _ hs₃ _ => (walks_asBlock hs₃ "body" (by decide) rfl).bind fun m₄ _ s₄ _ hs₄ _ => ?_
  refine (walks_field hvisit hs₄ "body").bind fun m₅ _ s₅ _ hs₅ _ => .look hs₅ (looks_line hs₅) fun line hline => ?_
  refine .look hs₅ (looks_plainField hs₅ "left") fun left hleft => .look hs₅ (looks_lift (agreed_iterationProbes hline hleft)) fun probes hprobes => ?_
  have hentry : Silent m₅ fun c => Probe.statement "loop" (line c) [("loopType", .literal (.str (Visit.loopTag type)))] :=
    ⟨.expressionStatement (.record_one "loop" "loopType" hline (.const _ _ _)),
      fun c => Json.loopVariables_statement _ (List.forall_mem_singleton.2 (Json.loopVariables_literal _))⟩
  exact walks_prepend hs₅ _ (.cons hentry hprobes)

/-! ## Counted loops -/

omit hvisit hs

section Fresh

variable {α : Type}

theorem effect_freshNumber (f : Nat → Step α) (s : Pass) :
    (freshNumber >>= f).effect s = (f (s.counter + 1)).effect { s with counter := s.counter + 1 } := rfl

include hs

/-- A step on a field with a fresh number, which is taken before the field is looked for. -/
theorem runs_freshInField (key : String) {act : Nat → Nat → Step α} (h : ∀ t, Tree.Numbered m (isTextKey key) t →
      Walks (fun c => freshNumber >>= act c) m (isTextKey key) fun c => { s c with focus := t c }) :
    Walks (fun c => freshNumber >>= fun n => inField key (act c n)) m loose s := by
  have hrequire := hs.focus.layer.require key
  generalize hr : (fun c => (layer (s c).focus).require key) = r at hrequire
  have hr (c : Nat) : (layer (s c).focus).require key = r c := congrFun hr c
  cases hrequire with
  | fault e =>
    exact .fault e (fun c => effect_inField_error (s := { s c with counter := _ }) _ (hr c)) (Nat.le_succ m) hs.counted fun c =>
      ⟨rfl, rfl, rfl, rfl, Nat.le_succ _, .refl _, fun _ => Nat.le_add_right _ _, id⟩
  | @answer t ht =>
    refine (Runs.inField hs fun t ht _ _ => h t ht).of_effect fun c => ?_
    have hcounted : (layer ({ s c with counter := (s c).counter + 1 } : Pass).focus).require key = .ok (t c) := hr c
    rw [effect_freshNumber, effect_inField_ok _ hcounted, effect_inField_ok _ (hr c), within_of_not_shared _ _ (ht.isShared c),
      within_of_not_shared _ _ (ht.isShared c), effect_freshNumber]

/-- The list in focus gets the declarator of a new loop variable. -/
theorem runs_freshDeclarator (e : Fault) {probes : Nat → List Json} (hprobes : NumberedList (Silent m) probes) :
    Walks (fun c => freshNumber >>= fun n => changeList e (· ++ [.ofProbe (Probe.initDeclarator n (probes c))])) m loose s := by
  have hfocus := hs.focus
  generalize ht : (fun c => (s c).focus) = t at hfocus
  have ht (c : Nat) : (s c).focus = t c := congrFun ht c
  cases hfocus with
  | arr _ items h =>
    have hnew : Tree.Numbered (m + 1) false fun c => .ofProbe (Probe.initDeclarator (c + (m + 1)) (probes c)) :=
      .ofProbe (.initDeclarator (Nat.succ_pos m) (Nat.le_refl _) (hprobes.mono fun _ hj => hj.numbered.mono (Nat.le_succ m)))
    have hlist : Tree.Numbered (m + 1) loose fun c => .arr (items.map (· c) ++ [.ofProbe (Probe.initDeclarator (c + (m + 1)) (probes c))]) := by
      refine .of_arr (items ++ [_]) (List.forall_mem_append.2 ⟨fun u hu => (h u hu).mono (Nat.le_succ m), List.forall_mem_singleton.2 hnew⟩) ?_
      exact fun c => by rw [List.map_append]; rfl
    have hnumber (c : Nat) : (s c).counter + 1 = c + (m + 1) := by rw [hs.counter, Nat.add_assoc]
    refine .answer (a := fun _ => ()) (fun c => ?_) (Nat.le_succ m) (hs.counted.withFocus hlist) (fun c => ?_) trivial
    · rw [effect_freshNumber, hnumber, effect_changeList (s := { s c with counter := c + (m + 1) }) (ht c)]
    · have hsilent : ∀ p ∈ probes c, p.loopVariables = [] := by
        obtain ⟨ps, rfl, hps⟩ := hprobes
        exact List.forall_mem_map.2 fun p hp => (hps p hp).silent c
      refine ⟨rfl, rfl, rfl, rfl, Nat.le_succ _, ?_, fun x => ?_, fun hseen => ?_⟩
      · rw [ht]
        exact ⟨rfl, rfl, rfl⟩
      · have hdeclared : (Tree.ofProbe (Probe.initDeclarator (c + (m + 1)) (probes c))).declarators x = [Probe.initName (c + (m + 1))].count x := by
          rw [Tree.declarators, Tree.bare_ofProbe, Json.loopVariables_initDeclarator _ hsilent]
        rw [ht, introduced_succ, hnumber]
        simp only [Tree.declarators_arr, List.map_append, List.sum_append, List.map_cons, List.map_nil,
          List.sum_cons, List.sum_nil, hdeclared, Nat.add_zero]
        exact Nat.le_refl _
      · rw [ht] at hseen
        cases hseen
  | _ =>
    refine .fault e (fun c => ?_) (Nat.le_succ m) hs.counted fun c =>
      ⟨rfl, rfl, rfl, rfl, Nat.le_succ _, .refl _, fun _ => Nat.le_add_right _ _, id⟩
    refine effect_changeList_other (s := { s c with counter := (s c).counter + 1 }) (fun items harr => ?_) e _
    cases (ht c).symm.trans harr

end Fresh

include hs in
theorem walks_loopInit {line : Nat → Json} (hline : Json.Numbered m true line) : Walks (fun c => Visit.loopInit (line c)) m loose s := by
  refine .look hs (looks_plainField hs "init") fun init hinit => ?_
  obtain ⟨b, hb⟩ := hinit.layer.isNode.eq
  have hb (c : Nat) : (init c).isNode = b := hb c
  simp only [hb]
  refine .ite (fun _ => runs_pure hs trivial) fun _ => ?_
  refine .known hs (looks_lift (hinit.layer.hasType (Json.readable m) _)) fun declares => .ite (fun _ => ?_) fun _ => ?_
  · refine .look hs (looks_lift (agreed_declaredNames hinit)) fun names hnames => ?_
    have hempty : Constant fun c => (names c).isEmpty := by
      obtain ⟨names, rfl, -⟩ := hnames
      exact ⟨names.isEmpty, funext fun c => List.isEmpty_map⟩
    obtain ⟨empty, hempty⟩ := hempty.eq
    simp only [hempty]
    refine .ite (fun _ => runs_pure hs trivial) fun _ => ?_
    have hprobes : NumberedList (Silent m) fun c => (names c).map fun n => Probe.locals "declare" (line c) [.named n] :=
      hnames.map fun n hn => ⟨.locals "declare" hline (.cons hn.named .nil),
        fun c => Json.loopVariables_locals _ (List.forall_mem_singleton.2 (Json.loopVariables_ident _))⟩
    exact runs_freshInField hs "init" fun t ht => runs_freshInField (hs.withFocus ht) "declarations" fun u hu =>
      runs_freshDeclarator ((hs.withFocus ht).withFocus hu) _ hprobes
  · have hfollow {probe : Nat → Json} (hprobe : Silent m probe) :
        Walks (fun c => place "init" >>= fun v => setField "init" (Probe.followed v (probe c))) m loose s := by
      refine .look hs (looks_place hs "init") fun v hv => (runs_setField hs (by decide) (numbered_followed hv.1 hprobe.numbered) fun c x => ?_).walks
      rw [hv.2]
      exact declarators_followed _ (hprobe.silent c)
    refine .look hs (looks_lift hinit.writtenTargets) fun targets htargets => ?_
    have hwritten : Silent m fun c => Probe.locals "assign" (line c) (targets c) := silent_locals _ hline htargets
    obtain ⟨ts, rfl, hts⟩ := htargets
    cases ts with
    | nil =>
      refine .look hs (looks_place hs "init") fun v hv => .look hs (looks_conditionText hs hv.1) fun text htext => hfollow ?_
      exact ⟨.record_one "init" "expression" hline htext.literal,
        fun c => Json.loopVariables_record _ (List.forall_mem_singleton.2 (Json.loopVariables_literal _))⟩
    | cons t ts => exact hfollow hwritten

include hs in
theorem walks_loopUpdate {line : Nat → Json} (hline : Json.Numbered m true line) : Walks (fun c => Visit.loopUpdate (line c)) m loose s := by
  refine .look hs (looks_plainField hs "update") fun update hupdate => ?_
  obtain ⟨b, hb⟩ := hupdate.layer.isNode.eq
  have hb (c : Nat) : (update c).isNode = b := hb c
  simp only [hb]
  refine .ite (fun _ => runs_pure hs trivial) fun _ => .look hs (looks_lift hupdate.writtenTargets) fun targets htargets => ?_
  have hwritten : Silent m fun c => Probe.locals "assign" (line c) (targets c) := silent_locals _ hline htargets
  obtain ⟨ts, rfl, hts⟩ := htargets
  cases ts with
  | nil => exact runs_pure hs trivial
  | cons t ts =>
    refine .look hs (looks_place hs "update") fun v hv => (runs_setField hs (by decide) (numbered_followed hv.1 hwritten.numbered) fun c x => ?_).walks
    rw [hv.2]
    exact declarators_followed _ (hwritten.silent c)

include hs in
theorem walks_loopTest {line : Nat → Json} (hline : Json.Numbered m true line) : Walks (fun c => Visit.loopTest (line c)) m loose s := by
  refine .look hs (looks_child? hs "test") fun o ho => ?_
  have htested : Walks (fun c => do
      inField "body" (inField "body" (changeList .unsupported id))
      let text ← conditionText (← place "test")
      let probe := Probe.statement "test" (line c) [("expression", .literal text), ("result", .literal (.bool true))]
      inField "body" (inField "body" (changeList .unsupported (.ofProbe probe :: ·)))) m loose s := by
    refine (walks_nestedList hs "body" "body" rfl _ (fun _ hitems => hitems) fun _ _ _ _ => Nat.le_refl _).bind fun m' _ s' hle hs' _ => ?_
    refine .look hs' (looks_place hs' "test") fun v hv => .look hs' (looks_conditionText hs' hv.1) fun text htext => ?_
    have hprobe : Silent m' fun c => Probe.statement "test" (line c) [("expression", .literal (text c)), ("result", .literal (.bool true))] := by
      refine ⟨.expressionStatement (.record "test" (hline.mono hle) (.cons ⟨constant _, htext.literal⟩ (.cons ⟨constant _, .const _ _ _⟩ .nil))), fun c => ?_⟩
      exact Json.loopVariables_statement _ (List.forall_mem_cons.2 ⟨Json.loopVariables_literal _, List.forall_mem_singleton.2 (Json.loopVariables_literal _)⟩)
    exact walks_prependOne hs' _ hprobe
  cases ho with
  | none => exact runs_pure hs trivial
  | @some t ht =>
    obtain ⟨b, hb⟩ := ht.layer.isNode.eq
    have hb (c : Nat) : (t c).isNode = b := hb c
    simp only [Option.map_some, Option.getD_some, hb]
    exact .ite (fun _ => htested) fun _ => runs_pure hs trivial

include hvisit hs

theorem walks_countedLoop : Walks (fun _ => Visit.countedLoop visit) m loose s := by
  refine .look hs (looks_line hs) fun line hline => (walks_headerField hvisit hs "init").bind fun m₁ _ s₁ h₁ hs₁ _ => ?_
  refine (walks_headerField hvisit hs₁ "test").bind fun m₂ _ s₂ h₂ hs₂ _ => (walks_headerField hvisit hs₂ "update").bind fun m₃ _ s₃ h₃ hs₃ _ => ?_
  have hline := hline.mono (Nat.le_trans h₁ (Nat.le_trans h₂ h₃))
  refine (walks_loopInit hs₃ hline).bind fun m₄ _ s₄ h₄ hs₄ _ => (walks_loopUpdate hs₄ (hline.mono h₄)).bind fun m₅ _ s₅ h₅ hs₅ _ => ?_
  refine (walks_asBlock hs₅ "body" (by decide) rfl).bind fun m₆ _ s₆ h₆ hs₆ _ => (walks_field hvisit hs₆ "body").bind fun m₇ _ s₇ h₇ hs₇ _ => ?_
  exact walks_loopTest hs₇ (hline.mono (Nat.le_trans h₄ (Nat.le_trans h₅ (Nat.le_trans h₆ h₇))))

/-! ## All nodes -/

theorem walks_rule (type : String) {parent : Nat → Option Tree} (hparent : NumberedOption (Tree.Numbered m true) parent) :
    Walks (fun c => Visit.rule visit type (parent c)) m loose s := by
  unfold Visit.rule
  split
  · exact walks_block hvisit hs
  · exact walks_block hvisit hs
  · exact walks_switchCase hvisit hs
  · exact walks_function hvisit hs hparent
  · exact walks_function hvisit hs hparent
  · exact walks_function hvisit hs hparent
  · exact walks_member hvisit hs
  · exact walks_member hvisit hs
  · exact walks_returnStatement hvisit hs
  · exact walks_classDeclaration hvisit hs
  · exact walks_classExpression hvisit hs hparent
  · exact walks_declaration hvisit hs
  · exact walks_assignment hvisit hs
  · exact walks_update hvisit hs
  · exact walks_call hvisit hs
  · exact walks_branch hvisit hs
  · exact walks_loop hvisit hs _
  · exact walks_loop hvisit hs _
  · exact walks_loop hvisit hs _
  · exact walks_loop hvisit hs _
  · exact walks_countedLoop hvisit hs
  · exact walks_field hvisit hs "body"
  · exact runs_pure hs trivial
  · exact (looks_throw _).runs hs (A := fun _ => True) fun _ _ => trivial
  · exact walks_namelessClass hvisit hs hparent
  · exact walks_fields hvisit hs

end Visits

theorem numbered_node {visit : Visitor} (hvisit : visit.Numbered) : Visitor.Numbered (Visit.node visit) := by
  intro m loose s parent hs hparent
  refine .look hs (looks_focus (R := fun t => Tree.Numbered m loose t ∧ t = fun c => (s c).focus) ⟨hs.focus, rfl⟩) fun t ht => ?_
  obtain ⟨ht, hfocus⟩ := ht
  have hfocus (c : Nat) : (s c).focus = t c := (congrFun hfocus c).symm
  obtain ⟨isNode, hnode⟩ := ht.layer.isNode.eq
  have hnode (c : Nat) : (t c).isNode = isNode := hnode c
  obtain ⟨seen, hseen⟩ := ht.seen.eq
  simp only [hnode, hseen]
  refine .ite (fun hdone => runs_pure hs fun c hc => ?_) fun hnew => ?_
  · rw [hfocus, hnode] at hc
    rw [hfocus, hseen]
    simpa [hc] using hdone
  · have hnew : isNode = true ∧ seen = false := by simpa using hnew
    -- the node is marked before its rule runs, and no step takes a mark away
    have hseen (c : Nat) : (s c).focus.mark.seen = true := by
      have hc : (t c).isNode = true := (hnode c).trans hnew.1
      rw [hfocus]
      cases hnode : t c with
      | obj => rfl
      | _ =>
        rw [hnode] at hc
        cases hc
    refine (runs_mark hs).bind ?_
    rintro m _ s' - - ⟨rfl, rfl⟩
    refine Runs.mono (Runs.withKept (Q := fun _ _ _ => True) ?_) fun _ _ s' _ h c _ => (h.2 c).seen (hseen c)
    have hs' := hs.withFocus hs.focus.mark
    refine Runs.look hs' (looks_place hs' "type") fun type htype => ?_
    obtain ⟨htype, -⟩ := htype
    have hfault : Walks (fun _ => (throw .wrongKind : Step Unit)) m loose fun c => { s c with focus := (s c).focus.mark } :=
      (looks_throw _).runs hs' (A := fun _ => True) fun _ _ => trivial
    cases htype with
    | str _ type => exact walks_rule hvisit hs' type hparent
    | _ => exact hfault

/-- The visitor keeps numbered states numbered. -/
theorem numbered_visitWith : ∀ depth, (visitWith depth).Numbered
  | 0 => fun hs _ => (looks_throw _).runs hs (A := fun _ => False) fun _ => False.elim
  | depth + 1 => numbered_node (numbered_visitWith depth)

end ScriptTrace
