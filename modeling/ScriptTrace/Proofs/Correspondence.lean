import ScriptTrace.Proofs.Landmarks
import ScriptTrace.Proofs.Placement

/-!
# What becomes of the landmarks

The landmarks of an instrumented program are those of the program, each rewritten, in the same order; the
guards of functions bring two blocks each besides.

* `Matches` : each item of a list has its counterpart in another list, which may hold extras;
* `BodyFrame` : what is put around the statements of a body, by the node that it is the body of;
* `LandmarkRewritten` : what becomes of a landmark;
* `IsGuardBlock` : the blocks of a guard;
* `Rewrites.landmarks_match` : the landmarks of a value match the sites of what it becomes;
* `instrument_landmarks` : the same of programs.
-/

namespace ScriptTrace

open Probe Rewriting

/-! ## Lists that match -/

/-- Each item of the first list has its counterpart in the second, in the same order, and everything else in
the second list is an extra. -/
inductive Matches {α β : Type} (R : α → β → Prop) (E : β → Prop) : List α → List β → Prop
  | nil : Matches R E [] []
  | cons {a : α} {b : β} {as : List α} {bs : List β} (h : R a b) (hrest : Matches R E as bs) : Matches R E (a :: as) (b :: bs)
  | extra {b : β} {as : List α} {bs : List β} (h : E b) (hrest : Matches R E as bs) : Matches R E as (b :: bs)

namespace Matches

variable {α β γ δ : Type} {R : α → β → Prop} {E : β → Prop} {as as' : List α} {bs bs' : List β}

theorem append (h : Matches R E as bs) (h' : Matches R E as' bs') : Matches R E (as ++ as') (bs ++ bs') := by
  induction h with
  | nil => exact h'
  | cons hab _ ih => exact .cons hab ih
  | extra hb _ ih => exact .extra hb ih

theorem mono {R' : α → β → Prop} (h : Matches R E as bs) (hpair : ∀ a b, R a b → R' a b) : Matches R' E as bs := by
  induction h with
  | nil => exact .nil
  | cons hab _ ih => exact .cons (hpair _ _ hab) ih
  | extra hb _ ih => exact .extra hb ih

/-- An extra may stand anywhere. -/
theorem insert {b : β} (hb : E b) : ∀ {as : List α} {bs bs' : List β}, Matches R E as (bs ++ bs') →
    Matches R E as (bs ++ b :: bs')
  | _, [], _, h => .extra hb h
  | _, _ :: _, _, .cons hab h => .cons hab (h.insert hb)
  | _, _ :: _, _, .extra hc h => .extra hc (h.insert hb)

/-- What is collected from each item of two lists matches when it does for each pair. -/
theorem flatMap {R' : γ → δ → Prop} {E' : δ → Prop} {f : α → List γ} {g : β → List δ} (h : Matches R E as bs)
    (hpair : ∀ a b, R a b → Matches R' E' (f a) (g b)) (hextra : ∀ b, E b → Matches R' E' [] (g b)) :
    Matches R' E' (as.flatMap f) (bs.flatMap g) := by
  induction h with
  | nil => exact .nil
  | cons hab _ ih => exact (hpair _ _ hab).append ih
  | extra hb _ ih => exact (hextra _ hb).append ih

theorem of_zip {f : Json → List α} {g : Json → List β} : ∀ {vs ws : List Json}, vs.length = ws.length →
    (∀ p ∈ vs.zip ws, Matches R E (f p.1) (g p.2)) → Matches R E (vs.flatMap f) (ws.flatMap g)
  | [], [], _, _ => .nil
  | v :: _, w :: _, hlen, h =>
    (h (v, w) List.mem_cons_self).append (of_zip (Nat.succ.inj hlen) fun p hp => h p (List.mem_cons_of_mem _ hp))

/-- What is collected from two lists of fields with the same names matches when it does under each name. -/
theorem of_fields {f : String → Json → List α} {g : String → Json → List β} : ∀ {as bs : Fields Json},
    Fields.names bs = Fields.names as → (Fields.names as).Nodup →
      (∀ key v w, Fields.get? key as = some v → Fields.get? key bs = some w → Matches R E (f key v) (g key w)) →
        Matches R E (as.flatMap fun p => f p.1 p.2) (bs.flatMap fun p => g p.1 p.2)
  | [], [], _, _, _ => .nil
  | (k, v) :: as, (k', w) :: bs, hnames, hnd, h => by
    obtain ⟨rfl, hrest⟩ : k' = k ∧ Fields.names bs = Fields.names as := by simpa [Fields.names] using hnames
    obtain ⟨hk, hnd⟩ := List.nodup_cons.1 hnd
    refine (h k' v w (if_pos rfl) (if_pos rfl)).append (of_fields hrest hnd fun key v' w' hv hw => ?_)
    have hne : k' ≠ key := by
      rintro rfl
      exact hk (Fields.mem_names_of_get? hv)
    exact h key v' w' (by rw [Fields.get?, if_neg hne, hv]) (by rw [Fields.get?, if_neg hne, hw])

end Matches

/-! ## Rewritten landmarks -/

/-- The field of a node that holds a list of statements. -/
def listKey (type : String) : Option String := ofGroup type [(["Program", "BlockStatement"], "body"), (["SwitchCase"], "consequent")]

theorem ne_type_of_listKey {type key : String} (h : listKey type = some key) : key ≠ "type" := by
  obtain ⟨g, hg, -, rfl⟩ := ofGroup_mem_types h
  have hall : ∀ g ∈ [(["Program", "BlockStatement"], "body"), (["SwitchCase"], "consequent")], g.2 ≠ "type" := by decide
  exact hall g hg

/-- Types of nodes that put something around the statements of their bodies. -/
def framingTypes : List String := "ForStatement" :: loopTypes ++ functionTypes

/-- There is no node around, or it puts nothing around statements. -/
def IsPlainAround (up : Option Json) : Prop :=
  ∀ node type, up = some (.obj node) → Fields.type? node = some type → type ∉ framingTypes

/-- What is put around the statements of a list, by the node around the one that holds it. The body of a loop starts with
the records of an iteration: of the kind of loop and of the variables that the loop sets, or of the test that is counted.
The body of a function is guarded. -/
inductive BodyFrame (code : Option String) (classes : List Json) : Option Json → (List Json → List Json) → Prop
  | plain (up : Option Json) (h : IsPlainAround up) : BodyFrame code classes up id
  | iteration (node : Fields Json) (type : String) (line : Json) (probes : List Json) (htype : Fields.type? node = some type)
      (hloop : type ∈ loopTypes) (hline : Node.line (.obj node) = .ok line)
      (hprobes : Visit.iterationProbes line (Json.field "left" (.obj node)) = .ok probes) :
    BodyFrame code classes (some (.obj node))
      (Probe.statement "loop" line [("loopType", .literal (.str (Visit.loopTag type)))] :: probes ++ ·)
  | uncounted (node : Fields Json) (htype : Fields.type? node = some "ForStatement")
      (h : (Json.field "test" (.obj node)).isNode = false) : BodyFrame code classes (some (.obj node)) id
  /-- The text is that of the test as it was rewritten. -/
  | counted (node : Fields Json) (line test : Json) (text : String) (htype : Fields.type? node = some "ForStatement")
      (hline : Node.line (.obj node) = .ok line) (h : (Json.field "test" (.obj node)).isNode = true)
      (htest : Rewrites code .visited classes (some (.obj node)) (Json.field "test" (.obj node)) test)
      (htext : Node.conditionText test code = .ok text) :
    BodyFrame code classes (some (.obj node))
      (Probe.statement "test" line [("expression", .literal (.str text)), ("result", .literal (.bool true))] :: ·)
  | function (node : Fields Json) (type : String) (up : Option Json) (line endLine name : Json) (params : List Json)
      (htype : Fields.type? node = some type) (hfunction : type ∈ functionTypes) (hline : Node.line (.obj node) = .ok line)
      (hend : Node.endLine (.obj node) = .ok endLine) (hname : functionName classes (.obj node) up = .ok name)
      (hparams : parameterNames node = .ok params) :
    BodyFrame code classes (some (.obj node)) (functionBody line endLine name params)

/-- What becomes of a landmark: the node is rewritten, and the list it may hold is framed. -/
def LandmarkRewritten (code : Option String) (l : Landmark) (out : Fields Json) : Prop :=
  ∃ type name made plain, RewrittenNode code l.classes l.up type name l.fields made plain ∧
    (listKey type = none ∧ out = plain ∨ ∃ key f statements, listKey type = some key ∧ BodyFrame code l.classes l.up f ∧
      Fields.get? key plain = some (.arr statements) ∧ out = Fields.set key (.arr (f statements)) plain)

/-- A block of the guard around a function: the one that is tried, or the one that handles an exception. -/
def IsGuardBlock (out : Fields Json) : Prop :=
  (∃ statements line, out = blockFields (closed statements line)) ∨ ∃ line name, out = handlerFields line name

/-! ## Fields -/

section Fields

variable {inside : Bool} {classes : List Json} {name : Json} {type key : String} {fields fields' : Fields Json} {v : Json}

theorem Fields.flatMap_set {α β : Type} {f : String → α → List β} {key : String} {v : α} : ∀ {fields : Fields α},
    (∀ w, Fields.get? key fields = some w → f key v = f key w) → (Fields.get? key fields = none → f key v = []) →
      (Fields.set key v fields).flatMap (fun p => f p.1 p.2) = fields.flatMap fun p => f p.1 p.2
  | [], _, h => by
    rw [Fields.set, List.flatMap_cons, List.flatMap_nil, List.append_nil]
    exact h rfl
  | (k, w) :: rest, hsome, hnone => by
    by_cases hk : k = key
    · subst hk
      rw [Fields.set, if_pos rfl, List.flatMap_cons, List.flatMap_cons, hsome w (if_pos rfl)]
    · rw [Fields.set, if_neg hk, List.flatMap_cons, List.flatMap_cons, Fields.flatMap_set (fun u hu => hsome u (by
        rw [Fields.get?, if_neg hk, hu])) fun hu => hnone (by rw [Fields.get?, if_neg hk, hu])]

theorem mode_congr (h : Fields.get? "computed" fields' = Fields.get? "computed" fields) (key : String) :
    mode type fields' key = mode type fields key := by
  have hcomputed : isComputed fields' = isComputed fields := by rw [isComputed, isComputed, h]
  rw [mode, mode, visitedFields, visitedFields, hcomputed]

/-- The fields a node gets when it is completed have no landmarks. -/
theorem flatMap_completed : (completed type fields).flatMap (fun p => fieldLandmarks inside classes name type fields p.1 p.2) =
    fields.flatMap fun p => fieldLandmarks inside classes name type fields p.1 p.2 := by
  unfold completed
  split
  · next h =>
    obtain ⟨rfl, -⟩ := h
    rw [List.flatMap_append]
    exact List.append_nil _
  · split
    · next h =>
      have hkept : ∀ v, fieldLandmarks inside classes name type fields "expression" v = [] := by
        have hfunction := h.1
        simp only [functionTypes, List.mem_cons, List.not_mem_nil, or_false] at hfunction
        intro v
        have hmode : mode type fields "expression" = .kept := by
          rcases hfunction with rfl | rfl | rfl <;> simp [mode, visitedFields, ofGroup, visitTable, functionTypes]
        rw [fieldLandmarks, hmode]
      exact Fields.flatMap_set (f := fieldLandmarks inside classes name type fields) (fun w _ => by rw [hkept, hkept])
        fun _ => hkept _
    · rfl

theorem readyField_statement (h : type = "IfStatement" ∧ key ∈ ["consequent", "alternate"] ∨
    type ∈ "ForStatement" :: loopTypes ∧ key = "body") : readyField type key v = asBlock v := by
  rcases h with h | h
  · exact if_pos h
  · have hif : ¬ (type = "IfStatement" ∧ key ∈ ["consequent", "alternate"]) := by
      rintro ⟨-, hkey⟩
      rw [h.2] at hkey
      exact absurd hkey (by decide)
    rw [readyField, if_neg hif, if_pos h]

theorem readyField_function (h : type ∈ functionTypes) : readyField type "body" v = bodyBlock v := by
  simp only [functionTypes, List.mem_cons, List.not_mem_nil, or_false] at h
  rcases h with rfl | rfl | rfl <;> simp [readyField, loopTypes, functionTypes]

/-- A field as it is made ready has the landmarks of its value, and those it is put into. -/
theorem landmarks_readyField (hreturn : isMadeReturn type key v → v.isNode = true) :
    landmarks inside classes (some (.obj fields)) (readyField type key v) =
      Landmark.ready classes fields type key v fun up => landmarks inside classes up v := by
  have hnodup (statements : List Json) : (Fields.names (blockFields statements)).Nodup := by
    simp [blockFields, Fields.names]
  have hblock (up : Option Json) (x : Json) (hx : x.isNode = true) : landmarks inside classes up (blockOf [x]) =
      ⟨classes, up, blockFields [x]⟩ :: landmarks inside classes none x := by
    refine (landmarks_block (show Fields.type? (blockFields [x]) = some "BlockStatement" from rfl) (hnodup [x])).trans (congrArg (_ :: ·) ?_)
    refine (landmarks_arr [x]).trans ?_
    rw [List.flatMap_cons, List.flatMap_nil, List.append_nil, if_pos hx]
  unfold Landmark.ready
  split
  · next h =>
    obtain ⟨hplace, hnode, htype⟩ := h
    have hmade : asBlock v = blockOf [v] := if_pos (by simpa [hnode] using htype)
    rw [readyField_statement hplace, hmade, hblock _ v hnode]
  · next hmade =>
    split
    · next h =>
      obtain ⟨hfunction, rfl, htype⟩ := id h
      have hnode := hreturn h
      rw [readyField_function hfunction, bodyBlock_of_other htype, hblock _ (returnOf v) rfl]
      refine congrArg (_ :: ·) ?_
      refine (landmarks_obj (show Fields.type? (returnFields v) = some "ReturnStatement" from rfl)).trans ?_
      simp [Landmark.ofType, landmarkTypes, functionTypes, isEntered, returnFields, fieldLandmarks, mode, visitedFields, ofGroup,
        visitTable, Landmark.ready, isMadeBlock, isMadeReturn, loopTypes, classesAt, classTypes, returnOf]
    · next hmade' =>
      have hready : readyField type key v = v := by
        have hsame (h : type = "IfStatement" ∧ key ∈ ["consequent", "alternate"] ∨ type ∈ "ForStatement" :: loopTypes ∧ key = "body") :
            asBlock v = v := by
          refine if_neg fun hc => hmade ⟨h, ?_⟩
          simpa using hc
        unfold readyField
        split
        · next h => exact hsame (.inl h)
        · split
          · next h => exact hsame (.inr h)
          · split
            · next h => exact if_pos (Decidable.not_not.1 fun hc => hmade' ⟨h.1, h.2, hc⟩)
            · rfl
      rw [hready]

/-- A field that is ready is not put into anything again. -/
theorem readySites_of_ready {o : Json} (htype : o.type? = (readyField type key v).type?)
    (hnode : o.isNode = (readyField type key v).isNode) : readySites type key o = [] := by
  have hasBlock : (asBlock v).isNode = true → (asBlock v).type? = some "BlockStatement" := by
    intro hn
    unfold asBlock at hn ⊢
    split
    · rfl
    · next h =>
      rw [if_neg h] at hn
      simpa [hn] using h
  rw [readySites, if_neg fun h => ?_, if_neg fun h => ?_]
  · obtain ⟨hfunction, rfl, hother⟩ := h
    refine hother (htype.trans ?_)
    rw [readyField_function hfunction, bodyBlock]
    split
    · assumption
    · rfl
  · obtain ⟨hplace, hn, hother⟩ := h
    rw [htype, readyField_statement hplace] at hother
    rw [hnode, readyField_statement hplace] at hn
    exact hother (hasBlock hn)

theorem readySites_of_key (h : key ∉ ["consequent", "alternate", "body"]) : readySites type key v = [] :=
  readySites_of_ready (v := v) (by rw [readyField_eq_self h]) (by rw [readyField_eq_self h])

theorem isMadeBlock_of_ne (h : type ∉ "IfStatement" :: "ForStatement" :: loopTypes) : ¬ isMadeBlock type key v := by
  rintro ⟨⟨h', -⟩ | ⟨h', -⟩, -⟩
  · exact h (by rw [h']; simp)
  · exact h (List.mem_cons_of_mem _ h')

end Fields

/-! ## Frames -/

/-- Values in fields that are framed, the arguments of calls apart, are no lists. -/
theorem ne_arr_of_framed {type key : String} {fields : Fields Json} (hproper : (Json.obj fields).Proper)
    (htype : Fields.type? fields = some type) (hsame : frameKind type key ≠ .same) (harguments : frameKind type key ≠ .arguments)
    {v : Json} (hv : Fields.get? key fields = some v) : ∀ items, v ≠ .arr items := by
  have hall : ∀ g ∈ frameTable, ∀ e ∈ g.2, e.2 ≠ .arguments → ∀ t ∈ g.1, ∀ row ∈ Grammar.table, t ∈ row.1 →
      (Fields.get? e.1 row.2).any (fun slot => match slot with | .node _ | .optional _ => true | _ => false) = true := by
    decide
  obtain ⟨g, hg, hmem, hentry⟩ := exists_of_frameKind rfl hsame
  obtain ⟨slots, hshape⟩ := hproper.exists_shape htype
  obtain ⟨row, hrow, htrow, rfl⟩ := ofGroup_mem_types hshape
  obtain ⟨slot, hslot, hkind⟩ := (Option.any_eq_true _ _).1 (hall g hg _ hentry harguments type hmem row hrow htrow)
  rintro items rfl
  have hfits := hproper.fits _ htype hshape hslot
  rw [hv] at hfits
  cases slot with
  | node types => cases hfits
  | optional types => cases hfits
  | _ => cases hkind

section Frame

variable {inside : Bool} {code : Option String} {classes : List Json} {up : Option Json} {type : String} {fields made : Fields Json}

theorem sites_pair {e probe : Json} (he : ∀ items, e ≠ .arr items) (hprobe : sites inside probe = []) :
    sites inside (.arr [e, probe]) = sites inside e := by
  rw [sites_arr, List.flatMap_cons, List.flatMap_cons, hprobe]
  cases hnode : e.isNode with
  | true => simp
  | false => simp [sites_eq_nil hnode he]

/-- A list of declarators with one more that has no landmarks. -/
theorem sites_declarations {fields : Fields Json} (htype : Fields.type? fields = some "VariableDeclaration") {items : List Json}
    (hget : Fields.get? "declarations" fields = some (.arr items)) {declarator : Json} (h : sites inside declarator = []) :
    sites inside (.obj (Fields.set "declarations" (.arr (items ++ [declarator])) fields)) = sites inside (.obj fields) := by
  have htype' : Fields.type? (Fields.set "declarations" (.arr (items ++ [declarator])) fields) = some "VariableDeclaration" := by
    rwa [Fields.type?_set (by decide)]
  have hmode (key : String) : mode "VariableDeclaration" (Fields.set "declarations" (.arr (items ++ [declarator])) fields) key =
      mode "VariableDeclaration" fields key := mode_congr (by rw [Fields.get?_set, if_neg (by decide)]) key
  have hfield (key : String) (v : Json) : fieldSites inside "VariableDeclaration"
      (Fields.set "declarations" (.arr (items ++ [declarator])) fields) key v =
        fieldSites inside "VariableDeclaration" fields key v := by rw [fieldSites, fieldSites, hmode]
  have hitems : sites inside (.arr (items ++ [declarator])) = sites inside (.arr items) := by
    rw [sites_append, sites_records inside [declarator] fun r hr => by rw [List.mem_singleton.1 hr, h],
      List.append_nil]
  have hready (v : Json) : readySites "VariableDeclaration" "declarations" v = [] := readySites_of_key (by decide)
  have hother : "VariableDeclaration" ∉ landmarkTypes := by decide
  rw [sites_obj _ htype', sites_obj _ htype, if_neg hother, if_neg hother, List.nil_append, List.nil_append]
  simp only [hfield]
  split
  · refine Fields.flatMap_set (f := fieldSites inside "VariableDeclaration" fields) (fun w hw => ?_) fun hnone => ?_
    · rw [hget] at hw
      cases hw
      rw [fieldSites, fieldSites, hready, hready, hitems]
    · rw [hget] at hnone
      cases hnone
  · rfl

/-- A framed field has the landmarks of the field, unless it is a body or a callee that is redirected. -/
theorem Rewriting.Frame.sites_eq {k : FrameKind} {w o : Json} (h : Frame code classes up type fields made k w o)
    (hproper : (Json.obj fields).Proper) (hbody : k ∉ [.iteration, .counted, .function])
    (hconsole : k = .callee → Visit.isConsole (Json.field "callee" (.obj fields)) ≠ .ok true)
    (hlist : k ∉ [.same, .arguments] → ∀ items, w ≠ .arr items)
    (hinit : k = .init → w.type? = (Json.field "init" (.obj fields)).type?) : sites inside o = sites inside w := by
  have hfield (key : String) : (Json.field key (.obj fields)).Proper := by
    rw [Json.field, Json.get?]
    cases hv : Fields.get? key fields with
    | none => rfl
    | some v => exact hproper.field hv
  cases h with
  | same | callee | arguments | noInit | initNothing | noUpdate | updateNothing => rfl
  | uncounted | iteration | counted | function => simp at hbody
  | printer _ hprints => exact absurd hprints (hconsole rfl)
  | result line _ hline =>
    cases hnull : w.isNull with
    | true =>
      obtain rfl : w = .null := by cases w <;> first | rfl | cases hnull
      exact (sites_wrapped inside returnName [line] .voidZero (by rintro ⟨⟩)).trans (sites_voidZero inside)
    | false =>
      exact sites_wrapped inside returnName [line] w fun hnode => sites_eq_nil hnode (hlist (by simp))
  | test line _ text =>
    exact sites_wrapped inside testName [.str text, line] w fun hnode => sites_eq_nil hnode (hlist (by simp))
  | printed line _ hprints hline =>
    have hliteral : sites inside (.literal line) = [] := sites_literal inside line
    rw [sites_arr, List.flatMap_cons, List.flatMap_cons, hliteral, ite_self, List.nil_append, List.flatMap_nil, List.append_nil,
      if_pos (show (arrayOf w).isNode = true from rfl), sites_arrayOf]
  | initDeclared line _ n names hline htype =>
    cases w with
    | obj wfields =>
      cases hv : Fields.get? "declarations" wfields with
      | none => rw [onList, hv]
      | some v =>
        cases v with
        | arr items =>
          rw [onList_obj _ hv]
          refine sites_declarations ((hinit rfl).trans htype) hv (sites_initDeclarator inside n fun p hp => ?_)
          obtain ⟨x, -, rfl⟩ := List.mem_map.1 hp
          refine sites_locals inside _ _ fun t ht => ?_
          rw [List.mem_singleton.1 ht]
          exact .named x
        | _ => rw [onList, hv]
    | _ => rfl
  | initAssigned line _ targets hline htype htargets =>
    rw [sites_sequenceOf, sites_pair (hlist (by simp)) (sites_locals inside _ _ (isVariable_of_writtenTargets _ (hfield _) htargets))]
  | initShown line _ text =>
    rw [sites_sequenceOf, sites_pair (hlist (by simp)) (sites_record inside _ _ _ fun p hp => by
      rw [List.mem_singleton.1 hp, sites_literal])]
  | updated line _ targets hline htargets =>
    rw [sites_sequenceOf, sites_pair (hlist (by simp)) (sites_locals inside _ _ (isVariable_of_writtenTargets _ (hfield _) htargets))]

end Frame

/-! ## Nodes -/

section Nodes

variable {inside : Bool} {code : Option String} {classes : List Json} {up : Option Json} {type : String} {name : Json}
  {fields made out : Fields Json}

theorem RewrittenNode.nodup_out (hnode : RewrittenNode code classes up type name fields made out) :
    (Fields.names out).Nodup := hnode.names_completed ▸ nodup_completed hnode.proper.nodup

theorem RewrittenNode.classesAt_eq (hnode : RewrittenNode code classes up type name fields made out) (key : String) :
    classesAt classes type key (nameOfClass classes up type fields) = classesAt classes type key name := by
  by_cases hclass : type ∈ classTypes
  · rw [nameOfClass, hnode.named hclass]
  · rw [classesAt, classesAt, if_neg fun h => hclass h.1, if_neg fun h => hclass h.1]

theorem RewrittenNode.mode_eq (hnode : RewrittenNode code classes up type name fields made out) (key : String) :
    mode type out key = mode type fields key := mode_congr (hnode.get?_plain _ (by decide)) key

/-! ### Bodies -/

theorem onList_id (key : String) (w : Json) : onList key id w = w := by
  cases w with
  | obj fields =>
    cases hv : Fields.get? key fields with
    | none => rw [onList, hv]
    | some v =>
      cases v with
      | arr items => rw [onList_obj id hv, id, Fields.set_of_get? hv]
      | _ => rw [onList, hv]
  | _ => rfl

theorem mem_of_frameKind {key : String} {k : FrameKind} (types : List String) (h : frameKind type key = k) (hk : k ≠ .same)
    (hall : ∀ g ∈ frameTable, ∀ e ∈ g.2, e.2 = k → g.1 = types) : type ∈ types := by
  obtain ⟨g, hg, hmem, hentry⟩ := exists_of_frameKind h hk
  exact hall g hg _ hentry rfl ▸ hmem

/-- What is framed as a body is one. -/
theorem body_of_frameKind {key : String} (h : frameKind type key ∈ [.iteration, .counted, .function]) :
    key = "body" ∧ type ∈ framingTypes := by
  have hall : ∀ g ∈ frameTable, ∀ e ∈ g.2, e.2 ∈ [FrameKind.iteration, .counted, .function] →
      e.1 = "body" ∧ ∀ t ∈ g.1, t ∈ framingTypes := by decide
  obtain ⟨g, hg, hmem, hentry⟩ := exists_of_frameKind rfl fun hsame => absurd (hsame ▸ h) (by decide)
  obtain ⟨hkey, htypes⟩ := hall g hg _ hentry h
  exact ⟨hkey, htypes _ hmem⟩

theorem frameKind_body (h : type ∈ framingTypes) : frameKind type "body" ∈ [.iteration, .counted, .function] := by
  have hall : ∀ t ∈ framingTypes, frameKind t "body" ∈ [FrameKind.iteration, .counted, .function] := by decide
  exact hall type h

/-- The test of a counted loop as it was rewritten. -/
theorem RewrittenNode.test_rewrites (hnode : RewrittenNode code classes up "ForStatement" name fields made out)
    (htest : (Json.field "test" (.obj fields)).isNode = true) :
    Rewrites code .visited classes (some (.obj fields)) (Json.field "test" (.obj fields)) (Json.field "test" (.obj made)) := by
  cases hv : Fields.get? "test" fields with
  | none =>
    rw [Json.field, Json.get?, hv] at htest
    cases htest
  | some v =>
    have hprepared : Fields.get? "test" (prepared "ForStatement" fields) = some v := by
      rw [get?_prepared_eq, get?_completed_of_ne (by decide), hv, Option.map_some, readyField_eq_self (by decide)]
    obtain ⟨w, hw⟩ := Fields.exists_get?_of_names hnode.names_made hprepared
    rw [Json.field_of_get? hv, Json.field_of_get? hw]
    have hmode : mode "ForStatement" fields "test" = .visited := by
      simp [mode, visitedFields, ofGroup, visitTable, functionTypes, classTypes, loopTypes]
    have hrw := hnode.field "test" v w hprepared hw
    rwa [hmode, classesAt, if_neg (by decide)] at hrw

/-- A body that is framed is the block as it was rewritten, with records or a guard in its list. -/
theorem RewrittenNode.exists_bodyFrame (inside : Bool) (hnode : RewrittenNode code classes up type name fields made out)
    {w o : Json} (hframe : Frame code classes up type fields made (frameKind type "body") w o)
    (hbody : frameKind type "body" ∈ [.iteration, .counted, .function]) :
    ∃ f, BodyFrame code classes (some (.obj fields)) f ∧ o = onList "body" f w ∧
      ∀ {R : Landmark → Fields Json → Prop} {ls : List Landmark} {items : List Json},
        Matches R IsGuardBlock ls (sites inside (.arr items)) → Matches R IsGuardBlock ls (sites inside (.arr (f items))) := by
  have hrecords (records : List Json) (hsites : ∀ r ∈ records, sites inside r = []) {R : Landmark → Fields Json → Prop}
      {ls : List Landmark} {items : List Json} (hitems : Matches R IsGuardBlock ls (sites inside (.arr items))) :
      Matches R IsGuardBlock ls (sites inside (.arr (records ++ items))) := by
    rwa [sites_append, sites_records inside _ hsites, List.nil_append]
  have hliteral (pairs : List (String × Json)) {kind : String} {line : Json} : sites inside (Probe.statement kind line
      (pairs.map fun p => (p.1, .literal p.2))) = [] := sites_statement inside _ _ _ fun p hp => by
    obtain ⟨q, -, rfl⟩ := List.mem_map.1 hp
    exact sites_literal inside _
  generalize hkind : frameKind type "body" = k at hframe hbody
  cases hframe with
  | same | result | test | printer | callee | printed | arguments | noInit | initNothing | initDeclared | initAssigned | initShown
    | noUpdate | updateNothing | updated => simp at hbody
  | uncounted _ htest =>
    obtain rfl := List.mem_singleton.1 (mem_of_frameKind ["ForStatement"] hkind (by decide) (by decide))
    exact ⟨id, .uncounted fields hnode.type htest, (onList_id "body" w).symm, id⟩
  | iteration line _ probes hline hprobes =>
    have hloop := mem_of_frameKind loopTypes hkind (by decide) (by decide)
    refine ⟨_, .iteration fields type line probes hnode.type hloop hline hprobes, rfl, hrecords (_ :: probes) fun r hr => ?_⟩
    rcases List.mem_cons.1 hr with rfl | hr
    · exact hliteral [("loopType", .str (Visit.loopTag type))]
    · exact sites_isLocals inside (isLocals_of_iteration hprobes r hr)
  | counted line _ text hline htest htext =>
    obtain rfl := List.mem_singleton.1 (mem_of_frameKind ["ForStatement"] hkind (by decide) (by decide))
    refine ⟨_, .counted fields line _ text hnode.type hline htest (hnode.test_rewrites htest) htext, rfl,
      hrecords [_] fun r hr => ?_⟩
    rw [List.mem_singleton.1 hr]
    exact hliteral [("expression", .str text), ("result", .bool true)]
  | function line endLine fname _ params hline hend hname hparams =>
    have hfunction := mem_of_frameKind functionTypes hkind (by decide) (by decide)
    refine ⟨_, .function fields type up line endLine fname params hnode.type hfunction hline hend hname hparams, rfl,
      fun {R ls items} hitems => ?_⟩
    rw [← List.takeWhile_append_dropWhile (p := isDirective) (l := items), sites_append] at hitems
    rw [sites_functionBody]
    refine .insert (.inl ⟨_, _, rfl⟩) ?_
    rw [← List.append_assoc]
    refine .insert (.inr ⟨_, _, rfl⟩) ?_
    rwa [List.append_nil]

/-- A body that is framed matches when what is in the block does. -/
theorem RewrittenNode.body_match (hnode : RewrittenNode code classes up type name fields made out) {block : Fields Json}
    {w o : Json} (hframe : Frame code classes up type fields made (frameKind type "body") w o)
    (hbody : frameKind type "body" ∈ [.iteration, .counted, .function]) (htype : Fields.type? block = some "BlockStatement")
    (hrw : Rewrites code .visited classes (some (.obj fields)) (.obj block) w)
    (hbelow : Matches (LandmarkRewritten code) IsGuardBlock (landmarks inside classes none (Json.field "body" (.obj block)))
      (sites inside (w.field "body"))) :
    Matches (LandmarkRewritten code) IsGuardBlock (landmarks inside classes (some (.obj fields)) (.obj block))
      (sites inside o) := by
  obtain ⟨f, hf, rfl, hlist⟩ := hnode.exists_bodyFrame inside hframe hbody
  obtain ⟨bname, bmade, plain, rfl, hblock⟩ := hrw.exists_node htype
  obtain ⟨_, ss, items, heq, -, hitems, -⟩ := Rewrites.exists_body htype hblock.proper hrw
  cases heq
  rw [landmarks_block htype hblock.proper.nodup]
  have htype' : Fields.type? (Fields.set "body" (.arr (f items)) plain) = some "BlockStatement" :=
    (Fields.type?_set (by decide) _ _).trans hblock.type?_out
  have hnodup : (Fields.names (Fields.set "body" (.arr (f items)) plain)).Nodup := by
    rw [Fields.names_set_of_mem (Fields.mem_names_of_get? hitems)]
    exact hblock.nodup_out
  have hfield : Json.field "body" (.obj (Fields.set "body" (.arr (f items)) plain)) = .arr (f items) :=
    Json.field_of_get? (by rw [Fields.get?_set, if_pos rfl])
  rw [onList_obj f hitems, sites_block htype' hnodup, hfield]
  rw [Json.field_of_get? hitems] at hbelow
  exact .cons ⟨_, _, _, _, hblock, .inr ⟨"body", f, items, rfl, hf, hitems, rfl⟩⟩ (hlist hbelow)

/-- Types of nodes that hold lists of statements. -/
def holderTypes : List String := ["Program", "BlockStatement", "SwitchCase"]

/-- A value holds no list of statements, unless nothing is put around what is visited below the node `up`. -/
def IsPlainBelow (up : Option Json) (v : Json) : Prop :=
  IsPlainAround up ∨ v.isOneOf holderTypes = false ∧ ∀ items, v = .arr items → ∀ x ∈ items, x.isOneOf holderTypes = false

theorem isPlainAround_none : IsPlainAround none := fun _ _ h => nomatch h

/-- What is shown by induction of a value and what it becomes: the landmarks match, and so do those in the list of
a block. -/
def LandmarksMatch (inside : Bool) (code : Option String) (m : Mode) (classes : List Json) (up : Option Json) (v w : Json) : Prop :=
  m ≠ .kept →
    ((m = .visited → IsPlainBelow up v) → Matches (LandmarkRewritten code) IsGuardBlock
        (landmarks inside classes (if m = .statements then none else up) v) (sites inside w)) ∧
      (v.type? = some "BlockStatement" → Matches (LandmarkRewritten code) IsGuardBlock
        (landmarks inside classes none (v.field "body")) (sites inside (w.field "body")))

/-- The callee of a call that is redirected consists of two names. -/
theorem parts_of_console {callee : Fields Json} {ctype : String} (hproper : (Json.obj callee).Proper)
    (htype : Fields.type? callee = some ctype) (h : Visit.isConsole (.obj callee) = .ok true) :
    ctype = "MemberExpression" ∧ ∀ key v, Fields.get? key callee = some v → ¬ (key = "loc" ∨ key = "range") →
      v.isInert = true ∨ ∃ leaf, v = .obj leaf ∧ Fields.type? leaf = some "Identifier" := by
  obtain ⟨rfl, hcomputed, object, property, hobject, hotype, -, hproperty, -⟩ := exists_of_isConsole hproper htype h
  have hptype : Fields.type? property = some "Identifier" := by
    obtain ⟨slots, hshape⟩ := hproper.exists_shape htype
    have hconsistent := hproper.consistent htype hshape
    have hnot : (Fields.get? "computed" callee).any Json.truthy = false := by
      rw [Json.field, Json.get?] at hcomputed
      cases hc : Fields.get? "computed" callee with
      | none => rfl
      | some c => rwa [hc] at hcomputed
    have hholds : (Json.obj property).isOneOf ["Identifier"] = true := by
      simpa [Grammar.isConsistent, hnot, hproperty] using hconsistent
    obtain ⟨fields, type, he, htype, hmem⟩ := Json.isOneOf_iff.1 hholds
    cases he
    rw [htype, List.mem_singleton.1 hmem]
  refine ⟨rfl, fun key v hv hposition => ?_⟩
  by_cases hobj : key = "object"
  · rw [hobj, hobject] at hv
    exact .inr ⟨object, (Option.some.inj hv).symm, hotype⟩
  by_cases hprop : key = "property"
  · rw [hprop, hproperty] at hv
    exact .inr ⟨property, (Option.some.inj hv).symm, hptype⟩
  refine .inl (hproper.inert htype hv (not_or.1 hposition) fun slots slot hshape hslot => ?_)
  cases hshape
  simp only [Fields.get?, Ne.symm hobj, Ne.symm hprop, if_false] at hslot
  split at hslot
  · cases hslot
    rfl
  · cases hslot

/-- The callee of a call that is redirected has no landmarks. -/
theorem landmarks_console {callee : Fields Json} {ctype : String} (hproper : (Json.obj callee).Proper)
    (htype : Fields.type? callee = some ctype) (h : Visit.isConsole (.obj callee) = .ok true) :
    landmarks inside classes up (.obj callee) = [] := by
  obtain ⟨rfl, hparts⟩ := parts_of_console hproper htype h
  have hclasses (key : String) : classesAt classes "MemberExpression" key (nameOfClass classes up "MemberExpression" callee) =
      classes := if_neg fun h => absurd h.1 (by decide)
  have hready (key : String) (v : Json) (below : Option Json → List Landmark) :
      Landmark.ready classes callee "MemberExpression" key v below = below (some (.obj callee)) := by
    rw [Landmark.ready, if_neg (isMadeBlock_of_ne (by decide)), if_neg fun h => absurd h.1 (by decide)]
  rw [landmarks_obj htype]
  refine List.append_eq_nil_iff.2 ⟨rfl, ?_⟩
  refine ite_eq_right_iff.2 fun _ => List.flatMap_eq_nil_iff.2 fun f hf => ?_
  have hmode : mode "MemberExpression" callee f.1 = if f.1 = "loc" ∨ f.1 = "range" then .kept else .visited := by
    simp [mode, visitedFields, ofGroup, visitTable, functionTypes, classTypes, loopTypes]
  rw [fieldLandmarks, hclasses, hready, hmode]
  by_cases hposition : f.1 = "loc" ∨ f.1 = "range"
  · rw [if_pos hposition]
  rw [if_neg hposition]
  rcases hparts f.1 f.2 (Fields.get?_of_mem hproper.nodup hf) hposition with hinert | ⟨leaf, he, hleaf⟩
  · exact landmarks_inert hinert
  · change landmarks inside classes (some (.obj callee)) f.2 = []
    rw [he, landmarks_obj hleaf]
    rfl

/-! ## Fields of a rewritten node -/

theorem frame_of_statements {key : String} (hmode : mode type fields key = .statements) :
    frameKind type key = .same ∧ ∀ v, readyField type key v = v := by
  have hmem : (type, key) ∈ [("Program", "body"), ("BlockStatement", "body"), ("SwitchCase", "consequent")] := by
    by_contra h
    rw [mode, if_neg h] at hmode
    split at hmode <;> split at hmode <;> cases hmode
  simp only [List.mem_cons, List.not_mem_nil, or_false, Prod.mk.injEq] at hmem
  rcases hmem with ⟨rfl, rfl⟩ | ⟨rfl, rfl⟩ | ⟨rfl, rfl⟩
  all_goals exact ⟨rfl, fun v => by simp [readyField, loopTypes, functionTypes]⟩

/-- Every statement of a list is a node. -/
theorem exists_list (key : String) (hproper : (Json.obj fields).Proper) (htype : Fields.type? fields = some type)
    (hkey : listKey type = some key) : mode type fields key = .statements ∧
      ∃ ss, Fields.get? key fields = some (.arr ss) ∧ ∀ s ∈ ss, s.isNode = true := by
  have hlisted {ss : List Json} (h : ∀ s ∈ ss, s.isOneOf Grammar.listed = true) : ∀ s ∈ ss, s.isNode = true := fun s hs => by
    obtain ⟨fields, type, rfl, htype, -⟩ := Json.isOneOf_iff.1 (h s hs)
    exact Json.isNode_of_type? (j := .obj fields) htype
  obtain ⟨g, hg, hmem, rfl⟩ := ofGroup_mem_types hkey
  simp only [List.mem_cons, List.not_mem_nil, or_false] at hg
  rcases hg with rfl | rfl
  · simp only [List.mem_cons, List.not_mem_nil, or_false] at hmem
    rcases hmem with rfl | rfl
    · obtain ⟨ss, hss, hall⟩ := Json.fits_list (hproper.fits "body" htype rfl rfl)
      exact ⟨rfl, ss, hss, hlisted hall⟩
    · obtain ⟨ss, hss, hall⟩ := Json.fits_list (hproper.fits "body" htype rfl rfl)
      exact ⟨rfl, ss, hss, hlisted hall⟩
  · obtain rfl := List.mem_singleton.1 hmem
    obtain ⟨ss, hss, hall⟩ := Json.fits_list (hproper.fits "consequent" htype rfl rfl)
    exact ⟨rfl, ss, hss, hlisted hall⟩

/-- The list of a rewritten node is woven from its statements. -/
theorem RewrittenNode.exists_weave (hnode : RewrittenNode code classes up type name fields made out) (key : String)
    (hkey : listKey type = some key) : ∃ ss ts, Fields.get? key fields = some (.arr ss) ∧
      Fields.get? key out = some (.arr (weave ss ts)) ∧ List.Forall₂ (Rewrites code .visited classes none) ss ts := by
  obtain ⟨hmode, ss, hss, hnodes⟩ := exists_list _ hnode.proper hnode.type hkey
  obtain ⟨hsame, hready⟩ := frame_of_statements hmode
  have hplain : key ≠ "expression" := by
    rintro rfl
    rw [mode, if_neg (by simp)] at hmode
    split at hmode <;> split at hmode <;> cases hmode
  have hcompleted : Fields.get? key (completed type fields) = _ := get?_completed (fun h => absurd h hplain) hss
  obtain ⟨o, ho⟩ := Fields.exists_get?_of_names hnode.names_completed hcompleted
  obtain ⟨w, hprepared, hw, hframe⟩ := hnode.exists_made hcompleted ho
  rw [hsame, Frame.same_iff] at hframe
  have hrw := hnode.field key _ w hprepared hw
  have hclass : type ∉ classTypes := by
    obtain ⟨g, hg, hmem, -⟩ := ofGroup_mem_types hkey
    simp only [List.mem_cons, List.not_mem_nil, or_false] at hg
    rcases hg with rfl | rfl <;> simp only [List.mem_cons, List.not_mem_nil, or_false] at hmem
    · rcases hmem with rfl | rfl <;> decide
    · rw [hmem]
      decide
  rw [hmode, hready, classesAt, if_neg fun h => hclass h.1] at hrw
  cases hrw with
  | statements _ _ _ ts hlen h hother =>
    refine ⟨ss, ts, hss, hframe ▸ ho, List.forall₂_iff_zip.2 ⟨hlen, fun {s t} hst => ?_⟩⟩
    exact h (s, t) hst (hnodes s (List.of_mem_zip hst).1)

/-- A field that is made ready is framed as a body, or not at all. -/
theorem frameKind_of_ready {key : String} (h : key ∈ ["consequent", "alternate", "body"]) :
    frameKind type key = .same ∨ frameKind type key ∈ [.iteration, .counted, .function] := by
  by_cases hsame : frameKind type key = .same
  · exact .inl hsame
  · have hall : ∀ g ∈ frameTable, ∀ e ∈ g.2, e.1 ∈ ["consequent", "alternate", "body"] →
        e.2 ∈ [FrameKind.iteration, .counted, .function] := by decide
    obtain ⟨g, hg, -, hentry⟩ := exists_of_frameKind rfl hsame
    exact .inr (hall g hg _ hentry h)

/-- A body that is framed is a block once it is ready. -/
theorem exists_block_of_body {key : String} (hproper : (Json.obj fields).Proper) (htype : Fields.type? fields = some type)
    (hbody : frameKind type key ∈ [.iteration, .counted, .function]) {v : Json}
    (hv : Fields.get? key (completed type fields) = some v) : v.isNode = true ∧
      ∃ block, readyField type key v = .obj block ∧ Fields.type? block = some "BlockStatement" := by
  have hall : ∀ g ∈ frameTable, ∀ e ∈ g.2, e.2 ∈ [FrameKind.iteration, .counted, .function] → e.1 = "body" ∧ ∀ t ∈ g.1,
      (t ∈ "ForStatement" :: loopTypes ∨ t ∈ functionTypes) ∧ ∀ row ∈ Grammar.table, t ∈ row.1 →
        (Fields.get? "body" row.2).any Slot.isNode = true := by
    decide
  obtain ⟨g, hg, hmem, hentry⟩ := exists_of_frameKind rfl fun h => absurd (h ▸ hbody) (by decide)
  obtain ⟨rfl, htypes⟩ := hall g hg _ hentry hbody
  obtain ⟨hplace, hrows⟩ := htypes type hmem
  obtain ⟨body, btype, hbody, hbtype⟩ := hproper.exists_node htype hrows
  rw [get?_completed_of_ne (by decide), hbody] at hv
  cases hv
  refine ⟨Json.isNode_of_type? (j := .obj body) hbtype, ?_⟩
  have hother (h : btype ≠ "BlockStatement") : (Json.obj body).type? ≠ some "BlockStatement" := by
    rw [show (Json.obj body).type? = some btype from hbtype]
    simpa using h
  rcases hplace with hloop | hfunction
  · rw [readyField_statement (.inr ⟨hloop, rfl⟩)]
    exact exists_asBlock hbtype
  · rw [readyField_function hfunction]
    by_cases hblock : btype = "BlockStatement"
    · exact ⟨body, bodyBlock_of_block (hblock ▸ hbtype), hblock ▸ hbtype⟩
    · exact ⟨_, bodyBlock_of_other (hother hblock), rfl⟩

/-- A branch is a statement, unless there is none. -/
theorem exists_branch {type key : String} {fields : Fields Json} {v : Json} (hproper : (Json.obj fields).Proper)
    (htype : Fields.type? fields = some type)
    (h : type = "IfStatement" ∧ key ∈ ["consequent", "alternate"] ∨ type ∈ "ForStatement" :: loopTypes ∧ key = "body")
    (hv : Fields.get? key (completed type fields) = some v) :
    frameKind type key ∈ [.same, .iteration, .counted] ∧
      (v = .null ∧ frameKind type key = .same ∨ ∃ branch btype, v = .obj branch ∧ Fields.type? branch = some btype) := by
  rcases h with ⟨rfl, hkey⟩ | ⟨hloop, rfl⟩
  · simp only [List.mem_cons, List.not_mem_nil, or_false] at hkey
    refine ⟨by rcases hkey with rfl | rfl <;> decide, ?_⟩
    rcases hkey with rfl | rfl <;> rw [get?_completed_of_ne (by decide)] at hv
    · obtain ⟨branch, btype, hbranch, hbtype, -⟩ := Json.fits_node (hproper.fits "consequent" htype rfl rfl)
      exact .inr ⟨branch, btype, Option.some.inj (hv.symm.trans hbranch), hbtype⟩
    · rcases Json.fits_optional (hproper.fits "alternate" htype rfl rfl) with h | h | ⟨branch, btype, hbranch, hbtype, -⟩
      · cases hv.symm.trans h
      · exact .inl ⟨Option.some.inj (hv.symm.trans h), rfl⟩
      · exact .inr ⟨branch, btype, Option.some.inj (hv.symm.trans hbranch), hbtype⟩
  · have hall : ∀ t ∈ "ForStatement" :: loopTypes, frameKind t "body" ∈ [FrameKind.iteration, .counted] := by decide
    have hkind := hall type hloop
    refine ⟨List.mem_cons_of_mem _ hkind, .inr ?_⟩
    obtain ⟨hnode, -⟩ := exists_block_of_body hproper htype (List.mem_append.2 (.inl hkind) : _ ∈ [_, _] ++ [FrameKind.function]) hv
    rw [get?_completed_of_ne (by decide)] at hv
    cases v with
    | obj branch =>
      obtain ⟨btype, hbtype⟩ := (hproper.field hv).exists_type hnode
      exact ⟨branch, btype, rfl, hbtype⟩
    | _ => cases hnode

theorem type?_onList {key : String} (hkey : key ≠ "type") (f : List Json → List Json) (w : Json) :
    (onList key f w).type? = w.type? ∧ (onList key f w).isNode = w.isNode := by
  cases w with
  | obj fields =>
    cases hv : Fields.get? key fields with
    | none => rw [onList, hv]; exact ⟨rfl, rfl⟩
    | some v =>
      cases v with
      | arr items =>
        rw [onList_obj f hv, Json.isNode_obj, Json.isNode_obj, Fields.get?_set, if_neg hkey]
        exact ⟨Fields.type?_set hkey _ fields, rfl⟩
      | _ => rw [onList, hv]; exact ⟨rfl, rfl⟩
  | _ => exact ⟨rfl, rfl⟩

/-- A field that is made ready keeps its type in its frame. -/
theorem Rewriting.Frame.type?_eq {k : FrameKind} {w o : Json} (h : Frame code classes up type fields made k w o)
    (hk : k = .same ∨ k ∈ [.iteration, .counted, .function]) : o.type? = w.type? ∧ o.isNode = w.isNode := by
  rcases hk with rfl | hk
  · rw [Frame.same_iff] at h
    exact ⟨congrArg Json.type? h, congrArg Json.isNode h⟩
  · cases h with
    | uncounted => exact ⟨rfl, rfl⟩
    | iteration | counted | function => exact type?_onList (by decide) _ w
    | _ => simp at hk

/-- Whether the rules of a type come to a field, whatever else the node holds. -/
def isVisited (type key : String) : Bool :=
  if type ∈ ["MethodDefinition", "Property"] then key == "value"
  else (ofGroup type visitTable).elim (key != "loc" && key != "range") (·.contains key)

theorem mode_of_isVisited {type key : String} {fields : Fields Json} (h : isVisited type key = true) : mode type fields key =
    if (type, key) ∈ [("Program", "body"), ("BlockStatement", "body"), ("SwitchCase", "consequent")] then .statements
    else .visited := by
  rw [mode]
  split
  · rfl
  · unfold isVisited at h
    unfold visitedFields
    split at h
    · next hmember =>
      rw [if_pos hmember]
      exact if_pos (by rw [beq_iff_eq.1 h]; split <;> simp)
    · next hmember =>
      rw [if_neg hmember]
      cases hkeys : ofGroup type visitTable with
      | some keys =>
        rw [hkeys] at h
        simpa using h
      | none =>
        rw [hkeys] at h
        simpa using h

/-- A field that is framed is visited. -/
theorem mode_of_framed {type key : String} {fields : Fields Json} (h : frameKind type key ≠ .same) :
    mode type fields key = .visited := by
  have hall : ∀ g ∈ frameTable, ∀ e ∈ g.2, ∀ t ∈ g.1, isVisited t e.1 = true ∧
      (t, e.1) ∉ [("Program", "body"), ("BlockStatement", "body"), ("SwitchCase", "consequent")] := by decide
  obtain ⟨g, hg, hmem, hentry⟩ := exists_of_frameKind rfl h
  obtain ⟨hvisited, hlist⟩ := hall g hg _ hentry type hmem
  rw [mode_of_isVisited hvisited, if_neg hlist]

/-- A field that is kept, and not made ready, is what it was. -/
theorem RewrittenNode.get?_kept {key : String} (hnode : RewrittenNode code classes up type name fields made out)
    (hmode : mode type fields key = .kept) (hkey : key ∉ ["argument", "expression", "consequent", "alternate", "body"]) :
    Fields.get? key out = Fields.get? key fields := by
  simp only [List.mem_cons, List.not_mem_nil, or_false, not_or] at hkey
  have hcompleted : Fields.get? key (completed type fields) = Fields.get? key fields :=
    get?_completed_of_ne (by simp [hkey])
  cases hv : Fields.get? key fields with
  | none =>
    rw [Fields.get?_eq_none, hnode.names_completed, ← Fields.get?_eq_none, hcompleted, hv]
  | some v =>
    obtain ⟨o, ho⟩ := Fields.exists_get?_of_names hnode.names_completed (hcompleted.trans hv)
    obtain ⟨w, hprepared, hw, hframe⟩ := hnode.exists_made (hcompleted.trans hv) ho
    have hsame : frameKind type key = .same := by
      by_contra h
      rw [mode_of_framed h] at hmode
      cases hmode
    have hrw := hnode.field key _ w hprepared hw
    rw [hmode, readyField_eq_self (by simp [hkey])] at hrw
    rw [hsame, Frame.same_iff] at hframe
    cases hrw
    rw [ho, hframe]

/-- A field that is not framed as a body is ready as it is, or not framed at all. -/
theorem readyField_of_unframed {key : String} (hbody : frameKind type key ∉ [.iteration, .counted, .function]) (v : Json) :
    readyField type key v = v ∨ frameKind type key = .same := by
  by_cases hkey : key ∈ ["consequent", "alternate", "body"]
  · exact .inr ((frameKind_of_ready hkey).resolve_right hbody)
  · exact .inl (readyField_eq_self hkey v)

/-- The initializer of a counted loop keeps its type. -/
theorem Rewrites.type?_init {m : Mode} {classes' : List Json} {up' : Option Json} {key : String} {v w : Json}
    (hrw : Rewrites code m classes' up' (readyField type key v) w) (hv : Fields.get? key (completed type fields) = some v)
    (hinit : frameKind type key = .init) : w.type? = (Json.field "init" (.obj fields)).type? := by
  obtain ⟨rfl, rfl⟩ := frameKind_init hinit
  rw [get?_completed_of_ne (by decide)] at hv
  rw [hrw.type?_eq, readyField_eq_self (by decide), Json.field_of_get? hv]

section Field

variable {key : String} {v w o : Json} (hnode : RewrittenNode code classes up type name fields made out)
  (hv : Fields.get? key (completed type fields) = some v)

include hnode hv

/-- What becomes of a field that is framed, bodies and arguments apart, is no list. -/
theorem RewrittenNode.ne_arr {classes' : List Json} {up' : Option Json}
    (hrw : Rewrites code .visited classes' up' (readyField type key v) w)
    (hbody : frameKind type key ∉ [.iteration, .counted, .function]) (hkind : frameKind type key ∉ [.same, .arguments]) :
    ∀ items, w ≠ .arr items := by
  intro items hitems
  simp only [List.mem_cons, List.not_mem_nil, or_false, not_or] at hkind
  obtain ⟨vs, rfl⟩ : ∃ vs, v = .arr vs := by
    rw [(readyField_of_unframed hbody v).resolve_right hkind.1, hitems] at hrw
    cases hrw with
    | value => exact ⟨_, rfl⟩
    | items => exact ⟨_, rfl⟩
  rcases get?_of_completed hv with hv | hv | hv
  · exact ne_arr_of_framed hnode.proper hnode.type hkind.1 hkind.2 hv vs rfl
  · cases hv
  · cases hv

/-- A callee that is redirected. -/
theorem RewrittenNode.exists_printer (hframe : Frame code classes up type fields made (frameKind type key) w o)
    (hkind : frameKind type key = .callee) (hprints : Visit.isConsole (Json.field "callee" (.obj fields)) = .ok true) :
    ∃ callee ctype, v = .obj callee ∧ (Json.obj callee).Proper ∧ Fields.type? callee = some ctype ∧
      Visit.isConsole (.obj callee) = .ok true ∧ o = .ident (.str printName) ∧ readyField type key v = v := by
  obtain ⟨rfl, -⟩ := frameKind_call (.inl hkind)
  obtain rfl : key = "callee" := by
    have hall : ∀ g ∈ frameTable, ∀ e ∈ g.2, e.2 = .callee → e.1 = "callee" := by decide
    obtain ⟨g, hg, -, hentry⟩ := exists_of_frameKind hkind (by decide)
    exact hall g hg _ hentry rfl
  obtain ⟨callee, ctype, hcallee, hctype, -⟩ := Json.fits_node (hnode.proper.fits "callee" hnode.type rfl rfl)
  rw [get?_completed_of_ne (by decide), hcallee] at hv
  cases hv
  rw [Json.field_of_get? hcallee] at hprints
  refine ⟨callee, ctype, rfl, hnode.proper.field hcallee, hctype, hprints, ?_, readyField_eq_self (by decide) _⟩
  rw [hkind] at hframe
  cases hframe with
  | printer => rfl
  | callee _ hnot =>
    rw [Json.field_of_get? hcallee, hprints] at hnot
    cases hnot

end Field

theorem classesAt_framing {key : String} (h : type ∈ framingTypes) : classesAt classes type key name = classes := by
  have hall : ∀ t ∈ framingTypes, t ∉ classTypes := by decide
  exact if_neg fun hc => hall type h hc.1

theorem mode_position (h : key = "loc" ∨ key = "range") : mode type fields key = .kept := by
  have htable : ∀ g ∈ visitTable, "loc" ∉ g.2 ∧ "range" ∉ g.2 := by decide
  have hkeys (keys : List String) (hkeys : visitedFields type fields = some keys) : key ∉ keys := by
    unfold visitedFields at hkeys
    split at hkeys
    · cases hkeys
      rcases h with rfl | rfl <;> split <;> decide
    · obtain ⟨g, hg, -, rfl⟩ := ofGroup_mem_types hkeys
      rcases h with rfl | rfl
      · exact (htable g hg).1
      · exact (htable g hg).2
  rw [mode, if_neg (by rcases h with rfl | rfl <;> simp)]
  split
  · next keys hv => rw [if_neg (hkeys keys hv)]
  · rw [if_pos h]

/-- What is visited below a node that puts something around its body, the body apart, holds no list of statements. -/
theorem RewrittenNode.isPlainBelow {key : String} {v : Json} (hnode : RewrittenNode code classes up type name fields made out)
    (hv : Fields.get? key (completed type fields) = some v) (hmode : mode type fields key = .visited)
    (hbody : frameKind type key ∉ [.iteration, .counted, .function]) :
    IsPlainBelow (some (.obj fields)) (readyField type key v) := by
  by_cases hframing : type ∈ framingTypes
  · refine .inr ?_
    have hkey : key ≠ "body" := fun he => hbody (he ▸ frameKind_body hframing)
    have hif : type ≠ "IfStatement" := fun he => absurd (he ▸ hframing) (by decide)
    have hready : readyField type key v = v := by simp [readyField, hkey, hif]
    rw [hready]
    rcases get?_of_completed hv with hv | rfl | rfl
    · have hrows : ∀ g ∈ Grammar.table, (∀ t ∈ g.1, t ∉ framingTypes) ∨ ∀ slot ∈ g.2, slot.1 = "body" ∨
          (∀ t ∈ holderTypes, t ∉ slot.2.types) ∧ slot.2.isPlacement = false := by decide
      refine hnode.proper.not_bound hnode.type (not_or.1 fun hposition => absurd ((mode_position hposition).symm.trans hmode) (by decide)) (fun slots slot hshape hslot => ?_) hv
      obtain ⟨g, hg, htype, rfl⟩ := ofGroup_mem_types hshape
      have hrow := (hrows g hg).resolve_left fun h => h type htype hframing
      exact (hrow (key, slot) (Fields.mem_of_get? hslot)).resolve_left hkey
    · exact ⟨rfl, fun items he => by cases he⟩
    · exact ⟨rfl, fun items he => by cases he⟩
  · refine .inl fun node type' he htype' => ?_
    cases he
    rwa [← Option.some.inj (hnode.type.symm.trans htype')]

/-- Each field of a rewritten node matches what it was. -/
theorem RewrittenNode.field_match (hnode : RewrittenNode code classes up type name fields made out)
    (ih : ∀ key v w, Fields.get? key (prepared type fields) = some v → Fields.get? key made = some w →
      LandmarksMatch inside code (mode type fields key) (classesAt classes type key name) (some (.obj fields)) v w)
    {key : String} {v o : Json} (hv : Fields.get? key (completed type fields) = some v) (ho : Fields.get? key out = some o) :
    Matches (LandmarkRewritten code) IsGuardBlock
      (fieldLandmarks inside classes (nameOfClass classes up type fields) type fields key v)
      (fieldSites inside type out key o) := by
  obtain ⟨w, hprepared, hw, hframe⟩ := hnode.exists_made hv ho
  have hih := ih key _ w hprepared hw
  have hrw := hnode.field key _ w hprepared hw
  rw [fieldLandmarks, fieldSites, hnode.mode_eq, hnode.classesAt_eq]
  cases hmode : mode type fields key with
  | kept => exact .nil
  | statements =>
    obtain ⟨hsame, hready⟩ := frame_of_statements hmode
    rw [hsame, Frame.same_iff] at hframe
    rw [hmode, hready] at hih
    rw [hframe]
    exact (hih (by decide)).1 fun h => by cases h
  | visited =>
    rw [hmode] at hih hrw
    have hih := hih (by decide)
    have hreturn : isMadeReturn type key v → v.isNode = true := by
      rintro ⟨hfunction, rfl, -⟩
      refine (exists_block_of_body hnode.proper hnode.type ?_ hv).1
      simp only [functionTypes, List.mem_cons, List.not_mem_nil, or_false] at hfunction
      rcases hfunction with rfl | rfl | rfl <;> decide
    have hplain : readySites type key o = [] := by
      by_cases hkey : key ∈ ["consequent", "alternate", "body"]
      · obtain ⟨htype, hisNode⟩ := hframe.type?_eq (frameKind_of_ready hkey)
        exact readySites_of_ready (htype.trans hrw.type?_eq) (hisNode.trans hrw.isNode_eq)
      · exact readySites_of_key hkey
    change Matches _ _ (Landmark.ready _ _ _ _ _ _) (readySites type key o ++ sites inside o)
    rw [← landmarks_readyField hreturn, hplain, List.nil_append]
    by_cases hbody : frameKind type key ∈ [.iteration, .counted, .function]
    · obtain ⟨-, block, hready, htype⟩ := exists_block_of_body hnode.proper hnode.type hbody hv
      obtain ⟨rfl, hframing⟩ := body_of_frameKind hbody
      rw [classesAt_framing hframing] at hih hrw ⊢
      rw [hready] at hih hrw ⊢
      exact hnode.body_match hframe hbody htype hrw (hih.2 htype)
    · by_cases hprints : frameKind type key = .callee ∧ Visit.isConsole (Json.field "callee" (.obj fields)) = .ok true
      · obtain ⟨callee, ctype, rfl, hproper, hctype, hconsole, rfl, hready⟩ := hnode.exists_printer hv hframe hprints.1 hprints.2
        rw [hready, landmarks_console hproper hctype hconsole, sites_ident]
        exact .nil
      · rw [hframe.sites_eq hnode.proper hbody (fun hkind hp => hprints ⟨hkind, hp⟩) (hnode.ne_arr hv hrw hbody)
          (hrw.type?_init hv)]
        exact hih.1 fun _ => hnode.isPlainBelow hv hmode hbody

end Nodes

section Values

variable {inside : Bool} {code : Option String} {m : Mode} {classes : List Json} {up : Option Json}

/-- The records around statements have no landmarks. -/
theorem sites_weave : ∀ {ss ts : List Json}, ss.length = ts.length →
    sites inside (.arr (weave ss ts)) = sites inside (.arr ts)
  | [], [], _ => rfl
  | s :: ss, t :: ts, hlen => by
    have hcons : weave (s :: ss) (t :: ts) = s.declares ++ ([t] ++ (s.writesAfter ++ weave ss ts)) := by simp [weave]
    have hbefore : sites inside (.arr s.declares) = [] := sites_records inside _ fun r hr => by
      obtain ⟨-, line, name, rfl⟩ := exists_of_mem_declares hr
      exact sites_declared inside line name
    have hafter : sites inside (.arr s.writesAfter) = [] := sites_records inside _ fun r hr =>
      sites_isLocals inside (isLocals_writesAfter r hr)
    rw [hcons, sites_append, sites_append, sites_append, hbefore, hafter, sites_weave (Nat.succ.inj hlen), List.nil_append,
      List.nil_append, ← sites_append, List.singleton_append]

/-- Items that are rewritten one by one match. -/
theorem items_match {up : Option Json} {vs ws : List Json} (hlen : vs.length = ws.length)
    (h : ∀ p ∈ vs.zip ws, p.1.isNode = true → p.2.isNode = true ∧ LandmarksMatch inside code .visited classes up p.1 p.2)
    (hother : ∀ p ∈ vs.zip ws, p.1.isNode = false → p.2 = p.1) (hplain : IsPlainBelow up (.arr vs)) :
    Matches (LandmarkRewritten code) IsGuardBlock (landmarks inside classes up (.arr vs)) (sites inside (.arr ws)) := by
  rw [landmarks_arr, sites_arr]
  refine .of_zip hlen fun p hp => ?_
  cases hn : p.1.isNode with
  | true =>
    obtain ⟨hn', hmatch⟩ := h p hp hn
    rw [if_pos rfl, if_pos hn']
    refine (hmatch (by decide)).1 fun _ => hplain.imp_right fun hitems => ⟨hitems.2 vs rfl _ (List.of_mem_zip hp).1, ?_⟩
    intro items he
    rw [he] at hn
    cases hn
  | false =>
    rw [hother p hp hn, hn]
    exact .nil

/-- A node that is no body, as it was rewritten. -/
theorem RewrittenNode.landmarkRewritten {type : String} {name : Json} {fields made out : Fields Json}
    (hnode : RewrittenNode code classes up type name fields made out) (hplain : IsPlainBelow up (.obj fields)) :
    LandmarkRewritten code ⟨classes, up, fields⟩ out := by
  refine ⟨type, name, made, out, hnode, ?_⟩
  cases hkey : listKey type with
  | none => exact .inl ⟨rfl, rfl⟩
  | some key =>
    obtain ⟨ss, ts, -, hts, -⟩ := hnode.exists_weave key hkey
    have hholder : (Json.obj fields).isOneOf holderTypes = true := Json.isOneOf_iff.2 ⟨fields, type, rfl, hnode.type, by
      obtain ⟨g, hg, hmem, -⟩ := ofGroup_mem_types hkey
      have hall : ∀ g ∈ [(["Program", "BlockStatement"], "body"), (["SwitchCase"], "consequent")], ∀ t ∈ g.1, t ∈ holderTypes := by
        decide
      exact hall g hg type hmem⟩
    have hup : IsPlainAround up := hplain.resolve_right fun h => absurd (hholder.symm.trans h.1) (by decide)
    exact .inr ⟨key, id, _, rfl, .plain up hup, hts, (Fields.set_of_get? hts).symm⟩

/-- The landmarks of a value match the sites of what it becomes. -/
theorem Rewrites.landmarks_match {v w : Json} (h : Rewrites code m classes up v w) : LandmarksMatch inside code m classes up v w := by
  induction h with
  | kept => exact fun hm => absurd rfl hm
  | value classes up v hnode hlist =>
    refine fun _ => ⟨fun _ => ?_, fun htype => ?_⟩
    · rw [landmarks_eq_nil hnode hlist, sites_eq_nil hnode hlist]
      exact .nil
    · rw [Json.isNode_of_type? htype] at hnode
      cases hnode
  | items classes up vs ws hlen h hother ih =>
    refine fun _ => ⟨fun hplain => ?_, fun htype => nomatch htype⟩
    exact items_match hlen (fun p hp hn => ⟨(h p hp hn).isNode_eq.trans hn, ih p hp hn⟩) hother (hplain rfl)
  | statements classes up ss ts hlen h hother ih =>
    refine fun _ => ⟨fun _ => ?_, fun htype => nomatch htype⟩
    rw [if_pos rfl, sites_weave hlen]
    exact items_match hlen (fun p hp hn => ⟨(h p hp hn).isNode_eq.trans hn, ih p hp hn⟩) hother (.inl isPlainAround_none)
  | node classes up type name fields made out htype hproper hname hmade h hout hframe ih =>
    have hnode : RewrittenNode code classes up type name fields made out := ⟨htype, hproper, hname, hmade, hout, h, hframe⟩
    refine fun _ => ⟨fun hplain => ?_, fun hblock => ?_⟩
    · rw [if_neg (by decide), landmarks_obj htype, sites_obj _ hnode.type?_out]
      refine .append ?_ ?_
      · unfold Landmark.ofType
        split
        · exact .cons (hnode.landmarkRewritten (hplain rfl)) .nil
        · exact .nil
      · split
        · rw [← flatMap_completed]
          exact .of_fields hnode.names_completed (nodup_completed hproper.nodup) fun key v o hv ho => hnode.field_match ih hv ho
        · exact .nil
    · obtain rfl : type = "BlockStatement" := Option.some.inj (htype.symm.trans hblock)
      obtain ⟨ss, hss, -⟩ := Json.fits_list (hproper.fits "body" htype rfl rfl)
      obtain ⟨w, hprepared, hw, ho⟩ := Unframed.exists_child (by decide) hmade hout hframe hss
      rw [Json.field_of_get? hss, Json.field_of_get? ho]
      have hbody := (ih "body" _ w hprepared hw (by rw [mode_block]; decide)).1 (by rw [mode_block]; exact nofun)
      rwa [mode_block, if_pos rfl, if_pos rfl, classesAt, if_neg fun h => absurd h.1 (by decide)] at hbody

end Values

/-- The landmarks of an instrumented program are those of the program, each rewritten, and the blocks of the guards. -/
theorem instrument_landmarks {tree out : Json} {code : Option String} (h : tree.WellFormed)
    (hrun : instrument tree code = .ok out) (inside : Bool) :
    Matches (LandmarkRewritten code) IsGuardBlock (landmarks inside [] none tree) (sites inside out) :=
  ((instrument_rewrites h hrun).landmarks_match (by decide)).1 fun _ => .inl isPlainAround_none

end ScriptTrace
