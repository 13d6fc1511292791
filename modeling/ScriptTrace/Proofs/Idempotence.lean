import ScriptTrace.Proofs.Isolation
import ScriptTrace.Proofs.Placement
import ScriptTrace.Proofs.SharedStatements

/-!
# Programs that were instrumented

Once a program has been instrumented, all its statements are marked, and no pass over another program works on a marked
statement, even where both list the same statement. So the program stays what it is.

* `Later` : parts that are done stay what they are;
* `statement_step`, `statements_run` : the pass over one statement, and over all of them;
* `instrument_settles` : what instrumenting a program does to it, and to those that are settled;
* `Task`, `Workspace.run` : sequences of steps none of which fails;
* `instrument_idempotent` : no later step changes a program that was instrumented.
-/

namespace ScriptTrace

open Step

/-! ## Statements -/

/-- The parts after a pass: as many as before, and those that were done are what they were. -/
structure Later (parts parts' : List Tree) : Prop where
  length : parts'.length = parts.length
  whole : ∀ t ∈ parts', t.Whole
  done (p : Tree) : p.Placed parts.length → (p.resolved parts).Done → p.resolved parts' = p.resolved parts

theorem Later.refl {parts : List Tree} (h : ∀ t ∈ parts, t.Whole) : Later parts parts := ⟨rfl, h, fun _ _ _ => rfl⟩

theorem Later.trans {parts parts' parts'' : List Tree} (h : Later parts parts') (h' : Later parts' parts'') : Later parts parts'' where
  length := h'.length.trans h.length
  whole := h'.whole
  done p hp hdone := by
    have hfirst := h.done p hp hdone
    rw [h'.done p (h.length ▸ hp) (hfirst ▸ hdone), hfirst]

/-- Between statements nothing is queued and no class is entered. -/
structure Pass.Idle (s : Pass) : Prop where
  queue : s.queue = .empty false
  classes : s.classes = []

/-- Probes that need no more work. -/
def Queue.Finished (q : Queue) : Prop := ∀ p ∈ q.before ++ q.after, p.Whole ∧ p.Done

section Statements

variable {depth : Nat} {s s' : Pass}

/-- The pass over a statement in focus leaves all else as it is, and one that is done altogether. -/
theorem statement_focus (hidle : s.Idle) (hwhole : s.focus.Whole) {q : Queue}
    (hrun : (Visit.statement (visitWith depth)).effect s = (.ok q, s')) :
    s'.Idle ∧ s'.parts = s.parts ∧ s'.focus.Whole ∧ s'.focus.Done ∧ q.Finished ∧ (s.focus.Done → s'.focus = s.focus ∧ q = .empty false) := by
  have hstart : Pass.Numbered 0 false fun c => { s with counter := c } := by
    refine ⟨hwhole.numbered, ?_, ?_, constant s.queue.allowsAfter, ?_, constant s.code, fun c => (Nat.add_zero c).symm⟩
    · simp only [hidle.queue]
      exact .nil
    · simp only [hidle.queue]
      exact .nil
    · simp only [hidle.classes]
      exact .nil
  have hunchanged : s.focus.Done → s'.focus = s.focus ∧ q = .empty false := by
    intro hdone
    have hskip : (!s.focus.isNode || s.focus.seen) = true := by
      cases hnode : s.focus.isNode with
      | true => rw [hdone hnode]; rfl
      | false => rfl
    have heffect : (Visit.statement (visitWith depth)).effect s = (.ok (.empty false), s) := by
      have hlook : focus.effect s = (.ok s.focus, s) := rfl
      unfold Visit.statement
      rw [effect_bind_ok hlook, if_pos hskip]
      rfl
    obtain ⟨hq, rfl⟩ := Prod.mk.inj (hrun.symm.trans heffect)
    exact ⟨rfl, Except.ok.inj hq⟩
  have hqueue := keepsQueue_statement (visitWith depth) s
  rw [hrun] at hqueue
  cases runs_statement (numbered_visitWith depth) hstart with
  | fault e heffect =>
    have h := heffect s.counter
    change (Visit.statement (visitWith depth)).effect s = _ at h
    rw [hrun] at h
    cases h
  | @answer m done q' heffect _ hdone hkept hQ =>
    have h := heffect s.counter
    change (Visit.statement (visitWith depth)).effect s = _ at h
    obtain ⟨hq, rfl⟩ := Prod.mk.inj (hrun.symm.trans h)
    obtain rfl := Except.ok.inj hq
    obtain ⟨hprobes, hmarked⟩ := hQ
    have hkept := hkept s.counter
    have hwaiting {ps : Nat → List Tree} (hps : NumberedList (Waiting m) ps) : ∀ p ∈ ps s.counter, p.Whole ∧ p.Done := by
      obtain ⟨items, rfl, hitems⟩ := hps
      exact List.forall_mem_map.2 fun p hp => ⟨(hitems p hp).numbered.whole _, fun _ => (hitems p hp).seen _⟩
    exact ⟨⟨hqueue.trans hidle.queue, hkept.classes.trans hidle.classes⟩, hkept.parts, hdone.focus.whole _, hmarked _,
      List.forall_mem_append.2 ⟨hwaiting hprobes.before, hwaiting hprobes.after⟩, hunchanged⟩

/-- The pass over the statement at a place, which is done afterwards. -/
theorem statement_step (hidle : s.Idle) (hparts : ∀ t ∈ s.parts, t.Whole) {p p' : Tree} (hp : p.Placed s.parts.length) {q : Queue}
    (hrun : within (Visit.statement (visitWith depth)) p s = ((.ok q, p'), s')) :
    s'.Idle ∧ Later s.parts s'.parts ∧ p'.Placed s'.parts.length ∧ (p'.resolved s'.parts).Done ∧ q.Finished ∧
      ((p.resolved s.parts).Done → s'.parts = s.parts ∧ p' = p ∧ q = .empty false) := by
  rcases hp with hwhole | ⟨k, hk, rfl⟩
  · rw [within_of_not_shared _ s hwhole.isShared] at hrun
    rcases heffect : (Visit.statement (visitWith depth)).effect { s with focus := p } with ⟨r, after⟩
    rw [heffect] at hrun
    cases hrun
    obtain ⟨hidle', hsame, hwhole', hdone, hprobes, hskip⟩ := statement_focus (s := { s with focus := p }) ⟨hidle.queue, hidle.classes⟩ hwhole heffect
    refine ⟨⟨hidle'.queue, hidle'.classes⟩, ?_, .inl hwhole', ?_, hprobes, fun h => ⟨hsame, hskip (hwhole.resolved _ ▸ h)⟩⟩
    · change Later s.parts after.parts
      rw [hsame]
      exact .refl hparts
    · rw [hwhole'.resolved]
      exact hdone
  · have hpart : (s.parts.getD k .null).Whole := by
      rw [List.getD_eq_getElem?_getD, List.getElem?_eq_getElem hk]
      exact hparts _ (List.getElem_mem hk)
    rcases heffect : (Visit.statement (visitWith depth)).effect { s with focus := s.parts.getD k .null } with ⟨r, after⟩
    rw [within, heffect] at hrun
    cases hrun
    obtain ⟨hidle', hsame, hwhole', hdone, hprobes, hskip⟩ :=
      statement_focus (s := { s with focus := s.parts.getD k .null }) ⟨hidle.queue, hidle.classes⟩ hpart heffect
    have hsame : after.parts = s.parts := hsame
    have hself : (Tree.shared k).resolved (after.parts.set k after.focus) = after.focus := by
      change (after.parts.set k after.focus).getD k .null = after.focus
      rw [hsame, List.getD_eq_getElem?_getD, List.getElem?_set_self hk]
      rfl
    have hunchanged (h : ((Tree.shared k).resolved s.parts).Done) : after.parts.set k after.focus = s.parts := by
      rw [hsame, (hskip h).1]
      change s.parts.set k (s.parts.getD k .null) = s.parts
      rw [List.getD_eq_getElem?_getD, List.getElem?_eq_getElem hk]
      exact List.set_getElem_self hk
    refine ⟨⟨hidle'.queue, hidle'.classes⟩, ⟨?_, ?_, ?_⟩, .inr ⟨k, ?_, rfl⟩, ?_, hprobes, fun h => ⟨hunchanged h, rfl, (hskip h).2⟩⟩
    · rw [List.length_set, hsame]
    · intro t ht
      rcases List.mem_or_eq_of_mem_set ht with ht | rfl
      · exact hparts t (hsame ▸ ht)
      · exact hwhole'
    · rintro p (hp | ⟨l, hl, rfl⟩) hpdone
      · rw [hp.resolved, hp.resolved]
      · by_cases hlk : l = k
        · subst hlk
          rw [hunchanged hpdone]
        · change (after.parts.set k after.focus).getD l .null = s.parts.getD l .null
          rw [hsame, List.getD_eq_getElem?_getD, List.getD_eq_getElem?_getD, List.getElem?_set_ne (Ne.symm hlk)]
    · rw [List.length_set, hsame]
      exact hk
    · rw [hself]
      exact hdone

/-- The pass over all statements of a program. -/
theorem statements_run : ∀ {places places' : List Tree} {queues : List Queue} {s s' : Pass}, s.Idle → (∀ t ∈ s.parts, t.Whole) →
    (∀ p ∈ places, p.Placed s.parts.length) → withinEach (Visit.statement (visitWith depth)) places s = ((.ok queues, places'), s') →
      Later s.parts s'.parts ∧ (∀ p ∈ places', p.Placed s'.parts.length ∧ (p.resolved s'.parts).Done) ∧ (∀ q ∈ queues, q.Finished) ∧
        ((∀ p ∈ places, (p.resolved s.parts).Done) → s'.parts = s.parts ∧ places' = places ∧ queues = places.map fun _ => .empty false)
  | [], places', queues, s, s', _, hparts, _, hrun => by
    cases hrun
    exact ⟨.refl hparts, nofun, nofun, fun _ => ⟨rfl, rfl, rfl⟩⟩
  | p :: places, places', queues, s, s', hidle, hparts, hplaced, hrun => by
    obtain ⟨hp, hplaced⟩ := List.forall_mem_cons.1 hplaced
    rw [withinEach] at hrun
    rcases hfirst : within (Visit.statement (visitWith depth)) p s with ⟨⟨r, p'⟩, s₁⟩
    rw [hfirst] at hrun
    cases r with
    | error e => cases hrun
    | ok q =>
      obtain ⟨hidle₁, hlater₁, hp', hdone₁, hprobes₁, hskip₁⟩ := statement_step hidle hparts hp hfirst
      dsimp only at hrun
      rcases hrest : withinEach (Visit.statement (visitWith depth)) places s₁ with ⟨⟨r, ps'⟩, s₂⟩
      rw [hrest] at hrun
      cases r with
      | error e => cases hrun
      | ok qs =>
        cases hrun
        obtain ⟨hlater₂, hplaced₂, hprobes₂, hskip₂⟩ :=
          statements_run hidle₁ hlater₁.whole (fun p hp => hlater₁.length ▸ hplaced p hp) hrest
        refine ⟨hlater₁.trans hlater₂, List.forall_mem_cons.2 ⟨⟨hlater₂.length ▸ hp', ?_⟩, hplaced₂⟩,
          List.forall_mem_cons.2 ⟨hprobes₁, hprobes₂⟩, fun hdone => ?_⟩
        · rw [hlater₂.done p' hp' hdone₁]
          exact hdone₁
        · obtain ⟨hpdone, hothers⟩ := List.forall_mem_cons.1 hdone
          obtain ⟨hsame₁, rfl, rfl⟩ := hskip₁ hpdone
          obtain ⟨hsame₂, rfl, rfl⟩ := hskip₂ (by rw [hsame₁]; exact hothers)
          exact ⟨hsame₂.trans hsame₁, rfl, rfl⟩

/-- Statements without probes around them. -/
theorem weave_empty : ∀ ts : List Tree, Visit.weave ts (ts.map fun _ => .empty false) = ts
  | [] => rfl
  | t :: ts => congrArg (t :: ·) (weave_empty ts)

theorem forall_mem_weave {P : Tree → Prop} : ∀ {ts : List Tree} {qs : List Queue}, (∀ t ∈ ts, P t) →
    (∀ q ∈ qs, ∀ p ∈ q.before ++ q.after, P p) → ∀ t ∈ Visit.weave ts qs, P t
  | [], qs, _, _ => by
    cases qs <;> exact nofun
  | t :: ts, [], hts, _ => hts
  | t :: ts, q :: qs, hts, hqs => by
    obtain ⟨ht, hts⟩ := List.forall_mem_cons.1 hts
    obtain ⟨hq, hqs⟩ := List.forall_mem_cons.1 hqs
    obtain ⟨hbefore, hafter⟩ := List.forall_mem_append.1 hq
    exact List.forall_mem_append.2 ⟨hbefore, List.forall_mem_cons.2 ⟨ht, List.forall_mem_append.2 ⟨hafter, forall_mem_weave hts hqs⟩⟩⟩

/-- The pass over a list of statements, if it comes to its end. -/
theorem ensures_statementList (visit : Visitor) : Ensures (Visit.statementList visit) s fun _ s' => ∃ places queues places' s₁,
    s.focus = .arr places ∧ withinEach (Visit.statement visit) places s = ((.ok queues, places'), s₁) ∧
      s' = { s₁ with focus := .arr (Visit.weave places' queues) } := by
  unfold Visit.statementList Visit.statements
  rw [ensures_bind, ensures_bind]
  intro queues s₂ heach
  rw [ensures_bind, ensures_focus, ensures_bind, ensures_lift]
  intro items hitems
  rw [ensures_pure, ensures_changeList]
  intro ts hts
  by_cases hlist : ∃ places, s.focus = .arr places
  · obtain ⟨places, hfocus⟩ := hlist
    rw [effect_eachItem _ hfocus (focus_withinEach _ places s)] at heach
    rcases hrun : withinEach (Visit.statement visit) places s with ⟨⟨r, places'⟩, s₁⟩
    rw [hrun] at heach
    obtain ⟨rfl, rfl⟩ := Prod.mk.inj heach
    obtain rfl : places' = items := Except.ok.inj hitems
    exact ⟨places, queues, places', s₁, hfocus, hrun, rfl⟩
  · -- a value that is no list is still none after its elements were visited
    have hkept : s₂.focus = s.focus := by
      cases helements : (layer s.focus).elements with
      | error e =>
        rw [eachItem, effect_ofEffect] at heach
        simp only [helements] at heach
        cases heach
      | ok us =>
        rw [effect_eachItem_other _ helements fun us h => hlist ⟨us, h⟩] at heach
        rw [← (Prod.mk.inj heach).2, focus_withinEach]
    exact absurd ⟨ts, hkept ▸ hts⟩ hlist

/-- The visit of a program, if it comes to its end. -/
theorem ensures_program {seen : Bool} {fields : Fields Tree} (hfocus : s.focus = .obj seen fields)
    (htype : Fields.get? "type" fields = some (.str "Program")) (hbody : ∀ t, Fields.get? "body" fields = some t → t.isShared = false) :
    Ensures (visitWith depth none) s fun _ s' => (seen = true ∧ s' = s) ∨ seen = false ∧ ∃ depth places queues places' s₁,
      Fields.get? "body" fields = some (.arr places) ∧
        withinEach (Visit.statement (visitWith depth)) places { s with focus := .arr places } = ((.ok queues, places'), s₁) ∧
          s' = { s₁ with focus := .obj true (Fields.set "body" (.arr (Visit.weave places' queues)) fields) } := by
  intro a s' hrun
  cases depth with
  | zero => cases hrun
  | succ depth =>
    rw [visitWith, effect_node_program _ none hfocus htype] at hrun
    cases seen with
    | true =>
      cases hrun
      exact .inl ⟨rfl, rfl⟩
    | false =>
      refine .inr ⟨rfl, depth, ?_⟩
      rw [if_neg Bool.false_ne_true, Visit.block] at hrun
      cases hget : Fields.get? "body" fields with
      | none =>
        have hrequire : (layer (Tree.obj true fields)).require "body" = .error (.missing (.str "body")) := by
          rw [layer_obj, Layer.require, hget]
        rw [effect_inField_error (s := { s with focus := .obj true fields }) _ hrequire] at hrun
        cases hrun
      | some body =>
        rw [effect_inField (s := { s with focus := .obj true fields }) _ rfl hget (hbody body hget)] at hrun
        rcases hlist : (Visit.statementList (visitWith depth)).effect { s with focus := body } with ⟨r, s₂⟩
        rw [hlist] at hrun
        obtain ⟨hr, hs'⟩ := Prod.mk.inj hrun
        subst hr
        obtain ⟨places, queues, places', s₁, rfl, heach, rfl⟩ := ensures_statementList (visitWith depth) a s₂ hlist
        exact ⟨places, queues, places', s₁, rfl, heach, hs'.symm⟩

end Statements

/-! ## Programs -/

namespace Workspace

variable {w : Workspace} {i : Nat}

/-- What is under the key of its statements is a place of its own in every program. -/
theorem Orderly.body (hw : Orderly w) {seen : Bool} {fields : Fields Tree} (htree : w.tree i = .obj seen fields) {t : Tree}
    (hget : Fields.get? "body" fields = some t) : t.isShared = false := by
  rcases hw.trees i with hwhole | ⟨others, places, hlists⟩
  · rw [htree, Tree.whole_obj] at hwhole
    exact (hwhole _ (Fields.mem_of_get? hget)).isShared
  · have hbody := field_body hlists
    rw [htree] at hbody
    change (Fields.get? "body" fields).getD .null = .arr places at hbody
    rw [hget] at hbody
    rw [show t = .arr places from hbody]
    rfl

/-- Another program was instrumented: the parts that are done are what they were. -/
theorem lists_of_later {w' : Workspace} {others : Fields Tree} {places : List Tree} (hlater : Later w.parts w'.parts)
    (htree : w'.tree i = w.tree i) (h : w.Lists i others places) : w'.Lists i others places := by
  obtain ⟨seen, hprogram⟩ := h.program
  exact ⟨⟨seen, htree.trans hprogram⟩, h.whole, fun p hp => hlater.length ▸ h.placed p hp⟩

theorem Settled.done {others : Fields Tree} {places : List Tree} (h : w.Settled i) (hlists : w.Lists i others places) :
    ∀ p ∈ places, (p.resolved w.parts).Done := by
  obtain ⟨others', places', hlists', hdone⟩ := h
  obtain rfl : places' = places := Tree.arr.inj ((field_body hlists').symm.trans (field_body hlists))
  exact List.forall_mem_map.1 hdone

/-- The workspace is in order again when one program was settled, and the others and the settled ones are what they were. -/
theorem Orderly.of_settled {w' : Workspace} (hw : Orderly w) (hlater : Later w.parts w'.parts)
    (hother : ∀ {j : Nat}, j ≠ i → w'.tree j = w.tree j) (hsettled : w'.Settled i)
    (hsame : ∀ j, w.Settled j → Same w w' j) : Orderly w' := by
  refine ⟨hlater.whole, fun j => ?_, fun j hj => ?_⟩
  · by_cases hji : j = i
    · obtain ⟨others, places, hlists, -⟩ := hsettled
      exact .inr ⟨others, places, hji ▸ hlists⟩
    · rcases hw.trees j with hwhole | ⟨others, places, hlists⟩
      · exact .inl (hother hji ▸ hwhole)
      · exact .inr ⟨others, places, lists_of_later hlater (hother hji) hlists⟩
  · by_cases hji : j = i
    · exact hji ▸ hsettled
    · have hj := hw.seen j (hother hji ▸ hj)
      exact (hsame j hj).settled hj

/-- What the pass over a program leaves, which was not marked: its statements are done, with their probes between them, and
where they were done before there are no probes. -/
theorem settles_of_run {w' : Workspace} (hother : ∀ {j : Nat}, j ≠ i → w'.tree j = w.tree j) {fields : Fields Tree}
    {places places' : List Tree} {queues : List Queue} {seen : Bool} (htree : w.tree i = .obj seen fields)
    (hself : w'.tree i = .obj true (Fields.set "body" (.arr (Visit.weave places' queues)) fields)) (hlater : Later w.parts w'.parts)
    {others : Fields Tree} (hlists : w.Lists i others places)
    (hwoven : ∀ p ∈ Visit.weave places' queues, p.Placed w'.parts.length ∧ (p.resolved w'.parts).Done)
    (hskip : (∀ p ∈ places, (p.resolved w.parts).Done) → w'.parts = w.parts ∧ Visit.weave places' queues = places) :
    w'.Settled i ∧ ∀ j, w.Settled j → Same w w' j := by
  have hnewLists {others places} (h : w.Lists i others places) : w'.Lists i others (Visit.weave places' queues) := by
    obtain ⟨_, hprogram⟩ := h.program
    refine ⟨⟨true, ?_⟩, h.whole, fun p hp => (hwoven p hp).1⟩
    obtain ⟨-, hfields⟩ := Tree.obj.inj (htree.symm.trans hprogram)
    rw [hself, hfields, Fields.set_set]
  refine ⟨⟨others, _, hnewLists hlists, List.forall_mem_map.2 fun p hp => (hwoven p hp).2⟩, fun j hj others₁ places₁ hlists₁ => ?_⟩
  have hdone := hj.done hlists₁
  by_cases hji : j = i
  · subst hji
    obtain rfl : places₁ = places := Tree.arr.inj ((field_body hlists₁).symm.trans (field_body hlists))
    obtain ⟨hparts, hwoven⟩ := hskip hdone
    refine ⟨places₁, hwoven ▸ hnewLists hlists₁, ?_⟩
    rw [hparts]
  · exact ⟨places₁, lists_of_later hlater (hother hji) hlists₁,
      List.map_congr_left fun p hp => hlater.done p (hlists₁.placed p hp) (hdone p hp)⟩

/-- **To instrument a program settles it**, and leaves the settled programs as they are. -/
theorem instrument_settles (hw : Orderly w) (h : (w.instrument i).1 = .ok ()) : Orderly (w.instrument i).2 ∧
    (w.instrument i).2.Settled i ∧ ∀ j, w.Settled j → Same w (w.instrument i).2 j := by
  cases hprogram : isProgram (w.tree i) with
  | false =>
    rw [instrument_other hprogram] at h
    cases h
  | true =>
    have hmem := lt_of_isProgram hprogram
    obtain ⟨seen, fields, htree, htype⟩ := of_isProgram hprogram
    rw [instrument_program hprogram] at h ⊢
    rcases hpass : w.pass i with ⟨_ | a, done⟩
    · rw [hpass] at h
      cases h
    dsimp only
    rcases ensures_program htree htype (fun t hget => hw.body htree hget) a done hpass with
      ⟨rfl, rfl⟩ | ⟨rfl, depth, places, queues, places', s₁, hget, heach, rfl⟩
    · -- the program was marked before
      rw [set_tree hmem]
      exact ⟨hw, hw.seen i (by rw [htree]; rfl), fun j _ => .refl w j⟩
    · have hbody : w.bodyOf i = .ok places := by
        unfold bodyOf
        rw [htree, layer_obj, Layer.require_of_get? hget]
        rfl
      obtain ⟨others, hlists⟩ := lists_of_bodyOf hw hbody
      obtain ⟨hlater, hplaced, hprobes, hskip⟩ :=
        statements_run (s := ⟨.arr places, w.parts, w.code, .empty false, [], w.counter⟩) ⟨rfl, rfl⟩ hw.parts hlists.placed heach
      have hwoven : ∀ p ∈ Visit.weave places' queues, p.Placed s₁.parts.length ∧ (p.resolved s₁.parts).Done := by
        refine forall_mem_weave hplaced fun q hq p hp => ?_
        obtain ⟨hwhole, hdone⟩ := hprobes q hq p hp
        exact ⟨.inl hwhole, by rw [hwhole.resolved]; exact hdone⟩
      have hunchanged (hdone : ∀ p ∈ places, (p.resolved w.parts).Done) :
          s₁.parts = w.parts ∧ Visit.weave places' queues = places := by
        obtain ⟨hparts, rfl, rfl⟩ := hskip hdone
        exact ⟨hparts, weave_empty places'⟩
      have hother {j : Nat} (hj : j ≠ i) := tree_set_of_ne (w := w) hj
      obtain ⟨hsettled, hsame⟩ := settles_of_run (fun hj => hother hj ..) htree (tree_set_self hmem ..) hlater hlists hwoven hunchanged
      exact ⟨hw.of_settled hlater (fun hj => hother hj ..) hsettled hsame, hsettled, hsame⟩

theorem orderly_ofTrees (code : Option String) (trees : List Json) : Orderly (ofTrees code trees) := by
  have htree (i : Nat) : (ofTrees code trees).tree i = .ofJson (trees.getD i .null) := by
    rw [tree, ofTrees, List.getD_eq_getElem?_getD, List.getD_eq_getElem?_getD, List.getElem?_map]
    cases trees[i]? <;> rfl
  refine ⟨List.forall_mem_nil _, fun i => .inl ?_, fun i hi => ?_⟩
  · rw [htree]
    exact Tree.whole_ofJsonWith false _
  · rw [htree, Tree.seen_ofJson] at hi
    cases hi

end Workspace

/-! ## Sequences of steps -/

/-- A step of a session with a workspace. -/
inductive Task where
  /-- Instruments a program. -/
  | instrument (i : Nat)
  /-- Prints a program. -/
  | generate (i : Nat)
  /-- Adds a program that lists the very statements of others. -/
  | join (programs : List Nat)

namespace Workspace

variable {w w' : Workspace}

/-- The workspace after a step; none if the step fails. -/
def perform (w : Workspace) : Task → Option Workspace
  | .instrument i => (w.instrument i).1.toOption.map fun _ => (w.instrument i).2
  | .generate i => (printed (w.plain i)).toOption.map fun _ => w
  | .join programs => (w.join programs).toOption

/-- The workspace after some steps; none if one of them fails. -/
def run (w : Workspace) (tasks : List Task) : Option Workspace := tasks.foldlM perform w

/-- What a step keeps. -/
theorem perform_keeps (hw : Orderly w) {task : Task} (h : w.perform task = some w') : Orderly w' ∧ ∀ i, w.Settled i → Same w w' i := by
  cases task with
  | instrument i =>
    obtain ⟨_, hok, rfl⟩ := Option.map_eq_some_iff.1 h
    obtain ⟨horderly, -, hsame⟩ := instrument_settles hw (ok_of_toOption hok)
    exact ⟨horderly, hsame⟩
  | generate i =>
    obtain ⟨_, -, rfl⟩ := Option.map_eq_some_iff.1 h
    exact ⟨hw, fun i _ => .refl w i⟩
  | join programs =>
    obtain ⟨horderly, hsame, -, -⟩ := join_keeps hw (ok_of_toOption h)
    exact ⟨horderly, fun i _ => hsame i⟩

/-- What a sequence of steps keeps. -/
theorem run_keeps : ∀ {tasks : List Task} {w w' : Workspace}, Orderly w → w.run tasks = some w' →
    Orderly w' ∧ ∀ i, w.Settled i → Same w w' i
  | [], w, w', hw, h => by
    obtain rfl : w = w' := Option.some.inj h
    exact ⟨hw, fun i _ => .refl w i⟩
  | task :: tasks, w, w', hw, h => by
    rw [run, List.foldlM_cons] at h
    obtain ⟨w₁, hfirst, hrest⟩ := Option.bind_eq_some_iff.1 h
    obtain ⟨hw₁, hsame₁⟩ := perform_keeps hw hfirst
    obtain ⟨hw', hsame'⟩ := run_keeps hw₁ hrest
    exact ⟨hw', fun i hi => (hsame₁ i hi).trans (hsame' i ((hsame₁ i hi).settled hi))⟩

theorem run_append {before after : List Task} (h : w.run (before ++ after) = some w') :
    ∃ w₁, w.run before = some w₁ ∧ w₁.run after = some w' := by
  rw [run, List.foldlM_append] at h
  exact Option.bind_eq_some_iff.1 h

/-- The programs that were instrumented in a sequence of steps are settled at its end. -/
theorem settled_of_instrumented (hw : Orderly w) {tasks : List Task} {i : Nat} (hmem : .instrument i ∈ tasks) (h : w.run tasks = some w') :
    w'.Settled i := by
  obtain ⟨before, after, rfl⟩ := List.append_of_mem hmem
  obtain ⟨w₁, hbefore, hrest⟩ := run_append h
  obtain ⟨hw₁, -⟩ := run_keeps hw hbefore
  rw [run, List.foldlM_cons] at hrest
  obtain ⟨w₂, hinstrument, hafter⟩ := Option.bind_eq_some_iff.1 hrest
  obtain ⟨_, hok, rfl⟩ := Option.map_eq_some_iff.1 hinstrument
  obtain ⟨hw₂, hsettled, -⟩ := instrument_settles hw₁ (ok_of_toOption hok)
  exact ((run_keeps hw₂ hafter).2 i hsettled).settled hsettled

theorem Settled.plain {i : Nat} (h : w.Settled i) (hw : Orderly w) {tasks : List Task} (hrun : w.run tasks = some w') :
    w'.plain i = w.plain i := by
  obtain ⟨hw', hsame⟩ := run_keeps hw hrun
  obtain ⟨others, places, hlists, -⟩ := id h
  exact (hsame i h).plain hw hw' hlists

end Workspace

/-- **Instrumenting is idempotent over whole runs.** In a sequence of steps on programs that share nothing at first, none of which
fails, a program that has been instrumented is changed by no later step, so that it is printed as before; nor is a join of
programs that have all been instrumented, from the moment it is made. -/
theorem instrument_idempotent (code : Option String) (trees : List Json) {before : List Task} {w : Workspace}
    (hbefore : (Workspace.ofTrees code trees).run before = some w) :
    (∀ i, .instrument i ∈ before → ∀ after w', w.run after = some w' → w'.plain i = w.plain i) ∧
      ∀ programs joined, (∀ i ∈ programs, .instrument i ∈ before) → w.join programs = .ok joined →
        ∀ after w', joined.run after = some w' → w'.plain w.trees.length = joined.plain w.trees.length := by
  have hstart := Workspace.orderly_ofTrees code trees
  have hw : w.Orderly := (Workspace.run_keeps hstart hbefore).1
  refine ⟨fun i hi after w' hafter => ?_, fun programs joined hprograms hjoin after w' hafter => ?_⟩
  · exact (Workspace.settled_of_instrumented hstart hi hbefore).plain hw hafter
  · obtain ⟨hjoined, -, -, hsettled⟩ := Workspace.join_keeps hw hjoin
    exact (hsettled fun i hi => Workspace.settled_of_instrumented hstart (hprograms i hi) hbefore).plain hjoined hafter

/-- The function that was instrumented is called by a program that lists its statements twice, and stays what it is. -/
theorem instrument_idempotent_echo : ∃ w w', (Workspace.ofTrees none [echoProgram, echoProgram]).run [.instrument 0] = some w ∧
    w.run [.join [0, 1, 0], .instrument 2, .instrument 1, .instrument 0] = some w' ∧ w'.plain 0 = w.plain 0 := by
  have hrun : ((Workspace.ofTrees none [echoProgram, echoProgram]).run
      ([.instrument 0] ++ [.join [0, 1, 0], .instrument 2, .instrument 1, .instrument 0])).isSome = true := by decide +kernel
  obtain ⟨w', hw'⟩ := Option.isSome_iff_exists.1 hrun
  obtain ⟨w, hbefore, hafter⟩ := Workspace.run_append hw'
  exact ⟨w, w', hbefore, hafter, (instrument_idempotent none _ hbefore).1 0 List.mem_cons_self _ w' hafter⟩

end ScriptTrace
