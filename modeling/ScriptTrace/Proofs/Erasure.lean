import ScriptTrace.Proofs.Normal
import ScriptTrace.Proofs.Placement
import ScriptTrace.Proofs.Records

/-!
# Instrumenting only adds probes

Taking the probes out of an instrumented program gives the program back, up to how some nodes are
written. Every frame is taken off by itself, records vanish from the lists they stand in, and so the
fields of each node are what they were.

* `eraseItems_functionBody` : a guarded body has the statements of the function;
* `Rewriting.Frame.erase_eq` : a framed field is the field once the frame is taken off;
* `eraseItems_weave` : so is a list of statements without the records between them;
* `Rewrites.normalise_erase` : what a value becomes, without its probes, is the value;
* `erase_instrument` : the same of a program.
-/

namespace ScriptTrace

open Probe Rewriting Json

/-! ## Records -/

theorem eraseItems_append (xs ys : List Json) : eraseItems (xs ++ ys) = eraseItems xs ++ eraseItems ys := by
  rw [eraseItems_eq_flatMap, eraseItems_eq_flatMap, eraseItems_eq_flatMap, List.flatMap_append]

theorem erase_recordCall {j : Json} (h : IsRecordCall j) : ∃ arguments, erase j = .callOf recordName arguments := by
  obtain ⟨arguments, rfl⟩ := h
  refine ⟨eraseItems arguments, ?_⟩
  rfl

/-- A record vanishes from the list it stands in. -/
theorem spliced_erase_record {j : Json} (h : IsRecordStatement j) : spliced (erase j) = [] := by
  obtain ⟨e, he, rfl⟩ := h
  obtain ⟨arguments, he⟩ := erase_recordCall he
  have herase : erase (.expressionStatement e) = .expressionStatement (.callOf recordName arguments) := by
    rw [← he]
    rfl
  rw [herase]
  rfl

theorem eraseItems_records (records : List Json) (h : ∀ r ∈ records, IsRecordStatement r) : eraseItems records = [] := by
  rw [eraseItems_eq_flatMap, List.flatMap_eq_nil_iff]
  exact fun r hr => spliced_erase_record (h r hr)

/-! ## Frames -/

/-- A call of the runtime around an expression is taken off. -/
theorem erase_wrapped {name : String} (hname : name ∈ [returnName, testName]) (arguments : List Json) {e : Json}
    (he : isProbe (erase e) = false) : erase (wrapped name arguments e) = erase e := by
  have hcall : erase (wrapped name arguments e) = eraseNode [("type", .str "CallExpression"), ("callee", .ident (.str name)),
      ("arguments", .arr (eraseItems (arguments ++ [e])))] := rfl
  have hlast : (eraseItems (arguments ++ [e])).getLast? = some (erase e) := by
    rw [eraseItems_append, eraseItems, spliced_of_not_probe he]
    simp [eraseItems]
  rw [hcall]
  simp only [List.mem_cons, List.not_mem_nil, or_false] at hname
  rcases hname with rfl | rfl
  all_goals
    change (eraseItems (arguments ++ [e])).getLast?.getD _ = _
    rw [hlast]
    rfl

/-- A record at the end of a sequence is taken off. -/
theorem erase_sequenceOf {e probe : Json} (hprobe : IsRecordCall probe) (he : isProbe (erase e) = false) :
    erase (sequenceOf e probe) = erase e := by
  obtain ⟨arguments, hprobe⟩ := erase_recordCall hprobe
  have hitems : eraseItems [e, probe] = [erase e, .callOf recordName arguments] := by
    rw [eraseItems, eraseItems, spliced_of_not_probe he, hprobe]
    rfl
  have hnode : erase (sequenceOf e probe) =
      eraseNode [("type", .str "SequenceExpression"), ("expressions", .arr (eraseItems [e, probe]))] := rfl
  rw [hnode, hitems]
  rfl

/-- A list that is changed by probes alone is the same list without them. -/
theorem erase_onList {g : List Json → List Json} (hg : ∀ items, eraseItems (g items) = eraseItems items) (key : String)
    (node : Json) : erase (onList key g node) = erase node := by
  cases node with
  | obj fields =>
    cases hv : Fields.get? key fields with
    | none => rw [onList, hv]
    | some v =>
      cases v with
      | arr items =>
        have herase : erase (.arr (g items)) = erase (.arr items) := by rw [erase, erase, hg]
        rw [onList_obj g hv, erase_obj, erase_obj, Fields.mapValues_set, herase,
          Fields.set_of_get? (by rw [Fields.get?_mapValues, hv, Option.map_some])]
      | _ => rw [onList, hv]
  | _ => rfl

/-- A guard stands for the statements in it. -/
theorem spliced_erase_guarded (statements : List Json) (line name : Json) :
    spliced (erase (guarded statements line name)) = eraseItems statements := rfl

/-- A guarded body has the statements of the function. -/
theorem eraseItems_functionBody (line endLine name : Json) (params statements : List Json) :
    eraseItems (functionBody line endLine name params statements) = eraseItems statements := by
  have hclosed : eraseItems (closed (statements.dropWhile isDirective) endLine) =
      eraseItems (statements.dropWhile isDirective) := by
    unfold closed
    split
    · rfl
    · rw [eraseItems_append, eraseItems_records [returned endLine], List.append_nil]
      intro r hr
      rw [List.mem_singleton.1 hr]
      exact isRecordStatement_statement ..
  rw [functionBody, eraseItems_append, eraseItems, eraseItems, spliced_erase_record (j := called line name params) (isRecordStatement_statement ..),
    spliced_erase_guarded, hclosed, List.nil_append, eraseItems, List.append_nil, ← eraseItems_append,
    List.takeWhile_append_dropWhile]

theorem spliced_erase_initDeclarator (n : Nat) (probes : List Json) : spliced (erase (initDeclarator n probes)) = [] := by
  have hinit : isInitDeclarator (erase (initDeclarator n probes)) = true := isInitName_initName n
  rw [spliced, hinit, Bool.or_true, if_pos rfl]

section Frame

variable {code : Option String} {classes : List Json} {up : Option Json} {type : String} {fields made : Fields Json}

/-- A framed field is the field once the frame is taken off. Calls of the console change two fields at once. -/
theorem Rewriting.Frame.erase_eq {k : FrameKind} {w o : Json} (h : Frame code classes up type fields made k w o)
    (hcall : k ≠ .callee ∧ k ≠ .arguments) (hw : k = .result → w ≠ .null) (hprobe : isProbe (erase w) = false) :
    erase o = erase w := by
  have honto (probes : List Json) (hprobes : ∀ r ∈ probes, IsRecordStatement r) (items : List Json) :
      eraseItems (probes ++ items) = eraseItems items := by
    rw [eraseItems_append, eraseItems_records _ hprobes, List.nil_append]
  cases h with
  | same | noInit | initNothing | noUpdate | updateNothing | uncounted => rfl
  | printer | callee => exact absurd rfl hcall.1
  | printed | arguments => exact absurd rfl hcall.2
  | result line _ hline =>
    have hnull : w.isNull = false := by
      cases w with
      | null => exact absurd rfl (hw rfl)
      | _ => rfl
    rw [hnull, if_neg (by decide)]
    exact erase_wrapped (by simp) _ hprobe
  | test => exact erase_wrapped (by simp) _ hprobe
  | iteration line _ probes hline hprobes =>
    refine erase_onList (fun items => ?_) "body" w
    refine honto _ (fun r hr => ?_) items
    rcases List.mem_cons.1 hr with rfl | hr
    · exact isRecordStatement_statement ..
    · exact (isLocals_of_iteration hprobes r hr).isRecordStatement
  | initDeclared line _ n names =>
    refine erase_onList (fun items => ?_) "declarations" w
    rw [eraseItems_append, eraseItems, spliced_erase_initDeclarator, eraseItems, List.nil_append, List.append_nil]
  | initAssigned | initShown | updated => exact erase_sequenceOf (isRecordCall_record ..) hprobe
  | counted line _ text =>
    refine erase_onList (fun items => honto [_] (fun r hr => ?_) items) "body" w
    rw [List.mem_singleton.1 hr]
    exact isRecordStatement_statement ..
  | function line endLine name _ params =>
    exact erase_onList (eraseItems_functionBody line endLine name params) "body" w

end Frame

/-! ## Lists of statements -/

/-- The records around statements vanish. -/
theorem eraseItems_weave : ∀ {ss ts : List Json}, ss.length = ts.length → eraseItems (weave ss ts) = eraseItems ts
  | [], [], _ => rfl
  | s :: ss, t :: ts, hlen => by
    have hbefore : ∀ r ∈ s.declares, IsRecordStatement r := by
      intro r hr
      obtain ⟨-, line, name, rfl⟩ := exists_of_mem_declares hr
      exact isRecordStatement_statement ..
    have hafter : ∀ r ∈ s.writesAfter, IsRecordStatement r := fun r hr => (isLocals_writesAfter r hr).isRecordStatement
    have hcons : weave (s :: ss) (t :: ts) = s.declares ++ t :: (s.writesAfter ++ weave ss ts) := by simp [weave]
    rw [hcons, eraseItems_append, eraseItems, eraseItems_append, eraseItems_records _ hbefore,
      eraseItems_records _ hafter, eraseItems_weave (Nat.succ.inj hlen), eraseItems]
    rfl

/-! ## Nodes -/

section Node

variable {type key : String} {fields out : Fields Json}

/-- A completed node differs from the node in fields that do not count. -/
theorem completed_eq (hproper : (Json.obj fields).Proper) (htype : Fields.type? fields = some type) :
    completed type fields = withArgument type .null fields ∨
      type = "ArrowFunctionExpression" ∧ completed type fields = Fields.set "expression" (.bool false) fields := by
  unfold completed withArgument
  split
  · exact .inl rfl
  · split
    · next h =>
      obtain ⟨body, hbody, hblock⟩ := exists_body hproper htype h.1
      rw [Json.field, Json.get?, hbody] at h
      exact .inr ⟨hblock.resolve_left h.2, rfl⟩
    · exact .inl rfl

theorem get?_completed_of_kept (hproper : (Json.obj fields).Proper) (htype : Fields.type? fields = some type)
    (hkey : isIgnored type key = false) :
    Fields.get? key (completed type fields) = Fields.get? key (withArgument type .null fields) := by
  rcases completed_eq hproper htype with h | ⟨rfl, h⟩
  · rw [h]
  · have hne : "expression" ≠ key := by
      rintro rfl
      cases hkey
    rw [h, Fields.get?_set, if_neg hne]
    rfl

theorem names_completed_filter (hproper : (Json.obj fields).Proper) (htype : Fields.type? fields = some type) :
    (Fields.names (completed type fields)).filter (fun k => !isIgnored type k) =
      (Fields.names (withArgument type Json.null fields)).filter fun k => !isIgnored type k := by
  rcases completed_eq hproper htype with h | ⟨rfl, h⟩
  · rw [h]
  · rw [h, Fields.names_set]
    split
    · rfl
    · rw [List.filter_append]
      exact List.append_nil _

/-- A node is what it was when each of its fields is, once it is complete. -/
theorem normalise_of_completed (hproper : (Json.obj fields).Proper) (htype : Fields.type? fields = some type)
    (htype' : Fields.type? out = some type) (hnames : Fields.names out = Fields.names (completed type fields))
    (hkeys : ∀ key v w, Fields.get? key (completed type fields) = some v → Fields.get? key out = some w →
      normalField type key (normalise w) = normalField type key (normalise v)) :
    normalise (.obj out) = normalise (.obj fields) := by
  have hout : withArgument type .null out = out := by
    refine if_neg fun ⟨hreturn, hnone⟩ => Fields.get?_eq_none.1 hnone ?_
    subst hreturn
    rw [hnames]
    unfold completed
    split
    · rw [Fields.names, List.map_append]
      simp
    · next h =>
      obtain ⟨v, hv⟩ := Option.ne_none_iff_exists'.1 fun hn => h ⟨rfl, hn⟩
      rw [if_neg fun hc => absurd hc.1 (by decide)]
      exact Fields.mem_names_of_get? hv
  refine normalise_node htype htype' hproper.nodup ?_ fun key v w hkey hv hw => ?_
  · rw [hout, hnames, names_completed_filter hproper htype]
  · rw [hout] at hw
    rw [← get?_completed_of_kept hproper htype hkey] at hv
    exact hkeys key v w hv hw

theorem normalise_blockOf (statements : List Json) : normalise (blockOf statements) = blockOf (statements.map normalise) := by
  rw [blockOf, normalise_of_type? "BlockStatement" rfl]
  simp only [Fields.mapValues_cons, Fields.mapValues_nil, normalise_arr, normalise_str]
  rfl

theorem asBlock_normalise (v : Json) : normalise (Rewriting.asBlock v) = Rewriting.asBlock (normalise v) := by
  rw [Rewriting.asBlock, Rewriting.asBlock, isNode_normalise, type?_normalise]
  split
  · rw [normalise_blockOf]; rfl
  · rfl

theorem asBlock_asBlock (v : Json) : Rewriting.asBlock (Rewriting.asBlock v) = Rewriting.asBlock v := by
  cases h : v.isNode && v.type? != some "BlockStatement" with
  | true => rw [Rewriting.asBlock.eq_def v, if_pos h]; rfl
  | false => rw [Rewriting.asBlock.eq_def v, if_neg (by rw [h]; decide), Rewriting.asBlock, if_neg (by rw [h]; decide)]

theorem isNull_normalise {v : Json} (h : v ≠ .null) : (normalise v).isNull = false := by
  cases v with
  | null => exact absurd rfl h
  | obj fields =>
    rw [normalise_obj, normalNode]
    split <;> rfl
  | _ => rfl

/-- A field that is made ready is written in the same way. -/
theorem normalField_ready (v : Json) (harrow : type ∈ functionTypes → key = "body" → v.type? ≠ some "BlockStatement" →
      type = "ArrowFunctionExpression" ∧ v ≠ .null) :
    normalField type key (normalise (readyField type key v)) = normalField type key (normalise v) := by
  unfold readyField
  split
  · next h =>
    obtain ⟨rfl, hkey⟩ := h
    have hfield (w : Json) : normalField "IfStatement" key w = Rewriting.asBlock w := by simp [normalField, hkey]
    rw [hfield, hfield, asBlock_normalise, asBlock_asBlock]
  · split
    · next hif h =>
      obtain ⟨hloop, rfl⟩ := h
      have hnot : type ≠ "ReturnStatement" ∧ type ≠ "IfStatement" := by
        constructor <;> rintro rfl <;> exact absurd hloop (by decide)
      have hfield (w : Json) : normalField type "body" w = Rewriting.asBlock w := by
        rw [normalField, if_neg fun hc => hnot.1 hc.1, if_neg fun hc => hnot.2 hc.1, if_pos ⟨hloop, rfl⟩]
      rw [hfield, hfield, asBlock_normalise, asBlock_asBlock]
    · split
      · next hfunction =>
        obtain ⟨hfunction, rfl⟩ := hfunction
        by_cases hblock : v.type? = some "BlockStatement"
        · rw [bodyBlock_of_block hblock]
        · obtain ⟨rfl, hnull⟩ := harrow hfunction rfl hblock
          have hfield (w : Json) : normalField "ArrowFunctionExpression" "body" w = answered w := by
            simp [normalField, loopTypes]
          have hanswer : normalise (returnOf v) = .obj [("type", .str "ReturnStatement"), ("argument", normalise v)] := by
            have hargument : normalField "ReturnStatement" "argument" (normalise v) = normalise v := by
              simp [normalField, loopTypes, isNull_normalise hnull]
            rw [returnOf, normalise_of_type? "ReturnStatement" rfl]
            simp only [Fields.mapValues_cons, Fields.mapValues_nil, normalise_str]
            change Json.obj [_, ("argument", normalField "ReturnStatement" "argument" (normalise v))] = _
            rw [hargument]
            rfl
          rw [hfield, hfield, bodyBlock_of_other hblock, normalise_blockOf, List.map_singleton, hanswer, answered,
            if_pos (type?_blockOf _), answered, if_neg (by rwa [type?_normalise])]
      · rfl

/-! ## Values that are made ready -/

theorem unreserved_of_type {fields : Fields Json} (htype : Fields.type? fields = some type) (hid : type ≠ "Identifier")
    (h : ∀ f ∈ fields, f.2.Unreserved) : (Json.obj fields).Unreserved := by
  have hj : (Json.obj fields).type? = some type := htype
  refine everyObject_obj.2 ⟨?_, h⟩
  rw [isIdentifier_eq_false (by rw [hj]; simpa using hid)]
  rfl

theorem blockOf_unreserved {v : Json} (h : v.Unreserved) : (blockOf [v]).Unreserved := by
  refine unreserved_of_type rfl (by decide) fun f hf => ?_
  simp only [List.mem_cons, List.not_mem_nil, or_false] at hf
  rcases hf with rfl | rfl
  · rfl
  · refine everyObject_arr.2 fun x hx => ?_
    rw [List.mem_singleton.1 hx]
    exact h

theorem readyField_unreserved {v : Json} (h : v.Unreserved) : (readyField type key v).Unreserved := by
  have hblock : (Rewriting.asBlock v).Unreserved := by
    unfold Rewriting.asBlock
    split
    · exact blockOf_unreserved h
    · exact h
  unfold readyField
  split
  · exact hblock
  · split
    · exact hblock
    · split
      · unfold bodyBlock
        split
        · exact h
        · refine blockOf_unreserved (unreserved_of_type rfl (by decide) fun f hf => ?_)
          simp only [List.mem_cons, List.not_mem_nil, or_false] at hf
          rcases hf with rfl | rfl | rfl
          · rfl
          · exact h
          · exact h.field "loc"
      · exact h

theorem completed_unreserved (h : (Json.obj fields).Unreserved) {v : Json} (hv : Fields.get? key (completed type fields) = some v) :
    v.Unreserved := by
  rcases get?_of_completed hv with hv | rfl | rfl
  · exact everyObject_get? h hv
  · rfl
  · rfl

end Node

/-! ## Fields of a rewritten node -/

theorem Rewrites.null {code : Option String} {m : Mode} {classes : List Json} {up : Option Json} {v : Json}
    (h : Rewrites code m classes up v .null) : v = .null := by
  cases h <;> rfl

/-! ## Calls of the console -/

/-- A callee that the pass takes for the console's is a method of the console. -/
theorem isConsoleMethod_of_isConsole {callee : Fields Json} {type : String} (hproper : (Json.obj callee).Proper)
    (htype : Fields.type? callee = some type) (h : Visit.isConsole (.obj callee) = .ok true) :
    isConsoleMethod (normalise (.obj callee)) = true := by
  obtain ⟨rfl, hcomputed, object, property, hobject, hotype, honame, hproperty, hprints⟩ := exists_of_isConsole hproper htype h
  have hobject' : isIdentifier (· == "console") (.obj object) = true := by
    have htype' : (Json.obj object).type? = some "Identifier" := hotype
    rw [isIdentifier, htype', Json.field, Json.get?, honame]
    rfl
  have hflag : normalise (Json.field "computed" (.obj callee)) = Json.field "computed" (.obj callee) := by
    rw [Json.field, Json.get?]
    rcases Json.fits_flag (hproper.fits "computed" htype rfl rfl) with hv | ⟨b, hv⟩ <;> rw [hv] <;> rfl
  have hfield {key : String} {v : Fields Json} (hv : Fields.get? key callee = some (.obj v)) :
      Json.field key (.obj callee) = .obj v := by rw [Json.field, Json.get?, hv]; rfl
  have hprints' : (Json.field "name" (.obj property)).string?.any ["log", "info", "warn", "error", "debug"].contains = true :=
    hprints
  rw [isConsoleMethod, type?_normalise, field_normalise "computed" (by decide), hflag, hcomputed,
    field_normalise "object" (by decide), hfield hobject, isIdentifier_normalise, hobject',
    field_normalise "property" (by decide), hfield hproperty, field_normalise _ (by decide), string?_normalise, hprints',
    show (Json.obj callee).type? = some "MemberExpression" from htype]
  rfl

/-! ## Rewritten nodes -/

namespace RewrittenNode

variable {code : Option String} {classes : List Json} {up : Option Json} {type : String} {name : Json}
  {fields made out : Fields Json} (hnode : RewrittenNode code classes up type name fields made out)

include hnode

theorem type?_erased : Fields.type? (Fields.mapValues erase out) = some type := by
  have hget := hnode.get?_plain "type" (by decide)
  rw [Fields.get?_of_type? hnode.type] at hget
  exact Fields.type?_of_get? (by rw [Fields.get?_mapValues, hget]; rfl)

variable (hunreserved : (Json.obj fields).Unreserved)
  (ih : ∀ key v w, Fields.get? key (prepared type fields) = some v → Fields.get? key made = some w →
    v.Unreserved → normalise (erase w) = normalise v)

include hunreserved ih

/-- A field of a rewritten node is what it was, but for the callee and the arguments of a call of the console. -/
theorem normalField_erase {key : String} {v o : Json} (hv : Fields.get? key (completed type fields) = some v)
    (ho : Fields.get? key out = some o)
    (hcall : type = "CallExpression" → key ∈ ["callee", "arguments"] →
      Visit.isConsole (Json.field "callee" (.obj fields)) ≠ .ok true) :
    normalField type key (normalise (erase o)) = normalField type key (normalise v) := by
  have hvu : v.Unreserved := completed_unreserved hunreserved hv
  obtain ⟨w, hprepared, hw, hf⟩ := hnode.exists_made hv ho
  have hih := ih key _ w hprepared hw (readyField_unreserved hvu)
  by_cases hresult : frameKind type key = .result ∧ w = .null
  · -- a return of nothing
    obtain ⟨hkind, rfl⟩ := hresult
    obtain ⟨rfl, rfl⟩ := frameKind_result hkind
    have hnull : v = .null := by
      have := (hnode.field _ _ _ hprepared hw).null
      rwa [readyField_eq_self (by decide)] at this
    subst hnull
    rw [hkind] at hf
    cases hf with
    | result line _ hline => rfl
  · have herase : erase o = erase w := by
      by_cases hkind : frameKind type key = .callee ∨ frameKind type key = .arguments
      · obtain ⟨rfl, hkey⟩ := frameKind_call hkind
        have hconsole := hcall rfl hkey
        rcases hkind with hkind | hkind <;> rw [hkind] at hf
        · cases hf with
          | printer _ hprints => exact absurd hprints hconsole
          | callee => rfl
        · cases hf with
          | printed _ _ hprints => exact absurd hprints hconsole
          | arguments => rfl
      · exact hf.erase_eq (not_or.1 hkind) (fun hk hn => hresult ⟨hk, hn⟩)
          ((readyField_unreserved hvu).isProbe_of_normalise hih)
    rw [herase, hih]
    refine normalField_ready v fun hfunction hkey hblock => ?_
    subst hkey
    obtain ⟨body, hbody, harrow⟩ := exists_body hnode.proper hnode.type hfunction
    rw [get?_completed_of_ne (by decide), hbody] at hv
    cases hv
    exact ⟨harrow.resolve_left hblock, by simp⟩

/-- The callee of a call that is not one of the console is no function of the runtime. -/
theorem calls_erased (hcall : type = "CallExpression" → Visit.isConsole (Json.field "callee" (.obj fields)) ≠ .ok true)
    {name : String} (hname : isReserved name = true) : calls name (.obj (Fields.mapValues erase out)) = false := by
  by_cases hc : type = "CallExpression"
  · subst hc
    obtain ⟨callee, -, hcallee, -, -⟩ := Json.fits_node (hnode.proper.fits "callee" hnode.type rfl rfl)
    have hcompleted : Fields.get? "callee" (completed "CallExpression" fields) = some (.obj callee) :=
      get?_completed (by decide) hcallee
    obtain ⟨o, ho⟩ := Fields.exists_get?_of_names hnode.names_completed hcompleted
    have hsame := hnode.normalField_erase hunreserved ih hcompleted ho fun hc _ => hcall hc
    have hid : isIdentifier (· == name) (erase o) = false := by
      rw [← isIdentifier_normalise, ← isIdentifier_normalField, hsame, isIdentifier_normalField, isIdentifier_normalise]
      exact (completed_unreserved hunreserved hcompleted).isIdentifier fun n hn => by rw [beq_iff_eq.1 hn]; exact hname
    rw [calls, Json.field, Json.get?, Fields.get?_mapValues, ho, Option.map_some, Option.getD_some, hid, Bool.and_false]
  · have htype' : (Json.obj (Fields.mapValues erase out)).type? = some type := hnode.type?_erased
    rw [calls, htype', beq_false_of_ne (by simpa using hc), Bool.false_and]

/-- A node that is no call of the console has no probes once its parts have none. -/
theorem eraseNode_eq_self (hcall : type = "CallExpression" → Visit.isConsole (Json.field "callee" (.obj fields)) ≠ .ok true) :
    eraseNode (Fields.mapValues erase out) = .obj (Fields.mapValues erase out) := by
  refine eraseNode_of_calls (fun name hname => ?_) fun e probe he => ?_
  · refine hnode.calls_erased hunreserved ih hcall ?_
    simp only [List.mem_cons, List.not_mem_nil, or_false] at hname
    rcases hname with rfl | rfl | rfl <;> rfl
  · rw [Json.field, Json.get?, Fields.get?_mapValues] at he
    cases ho : Fields.get? "expressions" out with
    | none => rw [ho] at he; cases he
    | some o =>
      rw [ho, Option.map_some, Option.getD_some] at he
      obtain ⟨v, hv⟩ := Fields.exists_get?_of_names hnode.names_completed.symm ho
      have hvu := completed_unreserved hunreserved hv
      have hplain (v : Json) : normalField type "expressions" v = v := normalField_eq_self (by simp) (by decide) v
      have hsame := hnode.normalField_erase hunreserved ih hv ho fun hc _ => hcall hc
      rw [hplain, hplain] at hsame
      have hitems : v.items.map normalise = [normalise e, normalise probe] := by
        rw [← items_normalise, ← hsame, items_normalise, he]
        rfl
      obtain ⟨probe', hmem, hprobe⟩ : ∃ probe' ∈ v.items, normalise probe' = normalise probe := by
        rw [← List.mem_map, hitems]
        simp
      exact (hvu.of_mem_items hmem).calls_of_normalise hprobe.symm rfl

/-- A call of the console that was redirected is the call it was. -/
theorem normalise_erase_print (hcall : type = "CallExpression")
    (hprint : Visit.isConsole (Json.field "callee" (.obj fields)) = .ok true) :
    normalise (eraseNode (Fields.mapValues erase out)) = normalise (.obj fields) := by
  subst hcall
  obtain ⟨callee, ctype, hcallee, hctype, -⟩ := Json.fits_node (hnode.proper.fits "callee" hnode.type rfl rfl)
  obtain ⟨items, hitems, -⟩ := Json.fits_list (hnode.proper.fits "arguments" hnode.type rfl rfl)
  have hcallee' : Fields.get? "callee" (completed "CallExpression" fields) = some (.obj callee) := get?_completed (by decide) hcallee
  have hitems' : Fields.get? "arguments" (completed "CallExpression" fields) = some (.arr items) := get?_completed (by decide) hitems
  -- the callee
  obtain ⟨c, hc⟩ := Fields.exists_get?_of_names hnode.names_completed hcallee'
  obtain ⟨wc, -, -, hframe⟩ := hnode.exists_made hcallee' hc
  obtain rfl : c = .ident (.str printName) := by
    rw [show frameKind "CallExpression" "callee" = .callee from rfl] at hframe
    cases hframe with
    | printer => rfl
    | callee _ hnot => rw [hprint] at hnot; cases hnot
  -- the arguments
  obtain ⟨a, ha⟩ := Fields.exists_get?_of_names hnode.names_completed hitems'
  obtain ⟨wa, hprepared, hwa, hframe⟩ := hnode.exists_made hitems' ha
  have hih := ih _ _ _ hprepared hwa (readyField_unreserved (completed_unreserved hunreserved hitems'))
  rw [readyField_eq_self (by decide)] at hih
  obtain ⟨line, rfl⟩ : ∃ line, a = .arr [.literal line, arrayOf wa] := by
    rw [show frameKind "CallExpression" "arguments" = .arguments from rfl] at hframe
    cases hframe with
    | printed line => exact ⟨line, rfl⟩
    | arguments _ hnot => rw [hprint] at hnot; cases hnot
  have herase : eraseNode (Fields.mapValues erase out) =
      .obj (Fields.set "arguments" (erase wa) (Fields.set "callee" consoleLog (Fields.mapValues erase out))) := by
    have hcalls (name : String) : calls name (.obj (Fields.mapValues erase out)) = (printName == name) := by
      have htype' : (Json.obj (Fields.mapValues erase out)).type? = some "CallExpression" := hnode.type?_erased
      rw [calls, htype', Json.field, Json.get?, Fields.get?_mapValues, hc]
      rfl
    have harguments : Json.field "arguments" (.obj (Fields.mapValues erase out)) = erase (.arr [.literal line, arrayOf wa]) := by
      rw [Json.field, Json.get?, Fields.get?_mapValues, ha]
      rfl
    simp only [eraseNode, hcalls, harguments]
    rfl
  have hnames : Fields.names (Fields.set "arguments" (erase wa) (Fields.set "callee" consoleLog (Fields.mapValues erase out))) =
      Fields.names (completed "CallExpression" fields) := by
    have hmem {key : String} {o : Json} (ho : Fields.get? key out = some o) : key ∈ Fields.names (Fields.mapValues erase out) := by
      rw [Fields.names_mapValues]
      exact Fields.mem_names_of_get? ho
    rw [Fields.names_set_of_mem (by rw [Fields.names_set_of_mem (hmem hc)]; exact hmem ha), Fields.names_set_of_mem (hmem hc),
      Fields.names_mapValues, hnode.names_completed]
  have htype' : Fields.type? (Fields.set "arguments" (erase wa) (Fields.set "callee" consoleLog (Fields.mapValues erase out))) =
      some "CallExpression" := by
    rw [Fields.type?_set (by decide), Fields.type?_set (by decide)]
    exact hnode.type?_erased
  rw [herase]
  refine normalise_of_completed hnode.proper hnode.type htype' hnames fun key v w hv hw => ?_
  rw [Fields.get?_set, Fields.get?_set] at hw
  by_cases hkey : "arguments" = key
  · subst hkey
    rw [if_pos rfl] at hw
    rw [hitems'] at hv
    cases hv
    cases hw
    rw [hih]
  · rw [if_neg hkey] at hw
    by_cases hkey' : "callee" = key
    · subst hkey'
      rw [if_pos rfl] at hw
      rw [hcallee'] at hv
      cases hv
      cases hw
      have hfield : Json.field "callee" (.obj fields) = .obj callee := by rw [Json.field, Json.get?, hcallee]; rfl
      rw [hfield] at hprint
      have hmethod := isConsoleMethod_of_isConsole (hnode.proper.field hcallee) hctype hprint
      have hother (w : Json) (hw : isConsoleMethod w = true) : normalField "CallExpression" "callee" w = consoleLog := by
        simp [normalField, loopTypes, hw]
      rw [hother _ hmethod, hother _ rfl]
    · rw [if_neg hkey', Fields.get?_mapValues, Option.map_eq_some_iff] at hw
      obtain ⟨o, ho, rfl⟩ := hw
      refine hnode.normalField_erase hunreserved ih hv ho fun _ hmem => ?_
      simp [Ne.symm hkey, Ne.symm hkey'] at hmem

/-- A rewritten node is what it was. -/
theorem normalise_erase : normalise (Json.erase (.obj out)) = normalise (.obj fields) := by
  rw [erase_obj]
  by_cases hprint : type = "CallExpression" ∧ Visit.isConsole (Json.field "callee" (.obj fields)) = .ok true
  · exact hnode.normalise_erase_print hunreserved ih hprint.1 hprint.2
  · rw [hnode.eraseNode_eq_self hunreserved ih fun hc hp => hprint ⟨hc, hp⟩]
    refine normalise_of_completed hnode.proper hnode.type hnode.type?_erased
      ((Fields.names_mapValues ..).trans hnode.names_completed) fun key v w hv hw => ?_
    rw [Fields.get?_mapValues, Option.map_eq_some_iff] at hw
    obtain ⟨o, ho, rfl⟩ := hw
    exact hnode.normalField_erase hunreserved ih hv ho fun hc _ hp => hprint ⟨hc, hp⟩

end RewrittenNode

section Values

variable {code : Option String} {m : Mode} {classes : List Json} {up : Option Json}

/-- Items each of which is what it was. -/
theorem map_normalise_eraseItems : ∀ {vs ws : List Json}, vs.length = ws.length →
    (∀ p ∈ vs.zip ws, p.1.Unreserved ∧ normalise (erase p.2) = normalise p.1) →
      (eraseItems ws).map normalise = vs.map normalise
  | [], [], _, _ => rfl
  | v :: vs, w :: ws, hlen, h => by
    obtain ⟨hv, hw⟩ := h (v, w) List.mem_cons_self
    rw [eraseItems, spliced_of_not_probe (hv.isProbe_of_normalise hw), List.singleton_append, List.map_cons, List.map_cons, hw,
      map_normalise_eraseItems (Nat.succ.inj hlen) fun p hp => h p (List.mem_cons_of_mem _ hp)]

/-- What a value becomes, without its probes, is the value. -/
theorem Rewrites.normalise_erase {v w : Json} (h : Rewrites code m classes up v w) (hv : v.Unreserved) :
    normalise (erase w) = normalise v := by
  induction h with
  | kept _ _ v | value _ _ v => rw [erase_eq_self v hv]
  | items classes up vs ws hlen h hother ih =>
    rw [erase, normalise_arr, normalise_arr]
    refine congrArg Json.arr (map_normalise_eraseItems hlen fun p hp => ?_)
    have hp1 : p.1.Unreserved := hv.item (List.of_mem_zip hp).1
    refine ⟨hp1, ?_⟩
    cases hn : p.1.isNode with
    | true => exact ih p hp hn hp1
    | false => rw [hother p hp hn, erase_eq_self p.1 hp1]
  | statements classes up ss ts hlen h hother ih =>
    rw [erase, eraseItems_weave hlen, normalise_arr, normalise_arr]
    refine congrArg Json.arr (map_normalise_eraseItems hlen fun p hp => ?_)
    have hp1 : p.1.Unreserved := hv.item (List.of_mem_zip hp).1
    refine ⟨hp1, ?_⟩
    cases hn : p.1.isNode with
    | true => exact ih p hp hn hp1
    | false => rw [hother p hp hn, erase_eq_self p.1 hp1]
  | node classes up type name fields made out htype hproper hname hmade h hout hframe ih =>
    exact RewrittenNode.normalise_erase ⟨htype, hproper, hname, hmade, hout, h, hframe⟩ hv ih

end Values

/-- Taking the probes out of an instrumented program gives the program back. -/
theorem erase_instrument {tree out : Json} {code : Option String} (h : tree.WellFormed) (hnames : tree.Unreserved)
    (hrun : instrument tree code = .ok out) : normalise (erase out) = normalise tree :=
  (instrument_rewrites h hrun).normalise_erase hnames

theorem erase_instrument_echo : echoProgram.WellFormed ∧ echoProgram.Unreserved ∧
    ∃ out, instrument echoProgram none = .ok out ∧ normalise (erase out) = normalise echoProgram := by
  have hwell : echoProgram.WellFormed := by decide +kernel
  have hnames : echoProgram.Unreserved := by decide +kernel
  have hok : (instrument echoProgram none).isOk = true := by decide +kernel
  refine ⟨hwell, hnames, ?_⟩
  cases hrun : instrument echoProgram none with
  | ok out => exact ⟨out, rfl, erase_instrument hwell hnames hrun⟩
  | error refusal => rw [hrun] at hok; cases hok

end ScriptTrace
