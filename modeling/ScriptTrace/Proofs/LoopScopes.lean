import ScriptTrace.Proofs.NameScopes

/-!
# The variables that loops record

The records of an iteration stand at the head of the loop's body, which is a block of its own. So a name in them is bound where
it is for the left side of the loop, unless the body declares the name anew.

* `LoopSite`, `loops` : the loops over keys and values in a program, each with the scopes around it;
* `LoopRewritten` : what becomes of a loop, and where the names in its records are bound;
* `Rewrites.loops_match` : the loops of a value, and those of what it becomes;
* `instrument_loops` : the same of programs.
-/

namespace ScriptTrace

open Probe Rewriting Survey

/-- A loop over keys or values, with the scopes around it. -/
structure LoopSite where
  scopes : List (List String)
  /-- Whether the loop is visited. -/
  visited : Bool
  fields : Fields Json

namespace LoopSite

variable (l : LoopSite) (type : String)

/-- The scopes around the left side of a loop. -/
def leftScopes : List (List String) := scopesAt l.scopes type l.fields "left"

/-- The scopes around the statements of a loop whose body is a block. -/
def bodyScopes (block : Fields Json) : List (List String) :=
  scopesAt (scopesAt l.scopes type l.fields "body") "BlockStatement" block "body"

end LoopSite

namespace Rewriting

def eachTypes : List String := ["ForInStatement", "ForOfStatement"]

/-- The loops over keys and values. The patterns of declarators are not visited. -/
def loopSites : Survey (List (List String) × Bool) LoopSite where
  own c type fields := if type ∈ eachTypes then [⟨c.1, c.2, fields⟩] else []
  next c type fields key := some (scopesAt c.1 type fields key, c.2 && !(type == "VariableDeclarator" && key == "id"))

/-- The loops in a program. -/
def loops (visited : Bool) (tree : Json) : List LoopSite := loopSites.collect ([], visited) tree

/-- What becomes of a loop: its body is a block that begins with the record of the loop and those of its variables. A name,
if it is not one of the probes, is bound for these records where it is bound for the left side exactly if the body does not
declare it. -/
structure LoopRewritten (l out : LoopSite) : Prop where
  scopes_eq : out.scopes = l.scopes
  kept : l.visited = false → out.fields = l.fields
  records : l.visited = true → ∃ type line records block rest, type ∈ eachTypes ∧ Fields.type? l.fields = some type ∧
    Fields.type? out.fields = some type ∧ Node.line (.obj l.fields) = .ok line ∧
    Visit.iterationProbes line (Json.field "left" (.obj l.fields)) = .ok records ∧
    Fields.get? "body" out.fields = some (.obj block) ∧ Fields.type? block = some "BlockStatement" ∧
    Fields.get? "body" block =
      some (.arr (Probe.statement "loop" line [("loopType", .literal (.str (Visit.loopTag type)))] :: records ++ rest)) ∧
    ∀ n, Json.isReserved n = false → (bindingOf n (out.bodyScopes type block) = bindingOf n (l.leftScopes type) ↔
      n ∉ blockNames ((asBlock (Json.field "body" (.obj l.fields))).field "body"))

end Rewriting

/-! ## Surroundings -/

section Surroundings

variable {scopes : List (List String)} {visited : Bool} {type key : String} {fields : Fields Json} {v : Json}

theorem loops_part (hkey : ¬ (key = "loc" ∨ key = "range")) : loopSites.part (scopes, visited) type fields key v =
    loopSites.collect (scopesAt scopes type fields key, visited && !(type == "VariableDeclarator" && key == "id")) v :=
  part_of_next hkey rfl v

theorem loops_own_eq_nil (h : type ∉ eachTypes) : loopSites.own (scopes, visited) type fields = [] := if_neg h

/-- Records have no loops and no scopes. -/
theorem loopSites_flat (scopes : List (List String)) : loopSites.Flat (scopes, false) where
  own type hmem fields := by
    have hall : ∀ t ∈ flatTypes, t ∉ eachTypes := by decide
    exact loops_own_eq_nil (hall type hmem)
  next type hmem fields key := by
    have hall : ∀ t ∈ "CallExpression" :: flatTypes, t ∉ scopeTypes := by decide
    exact congrArg some (Prod.ext (scopesAt_of_other (hall type hmem) scopes) rfl)
  quiet _ _ _ := rfl
  records _ _ _ _ := rfl

/-- The loops of a block are those of its statements. -/
theorem loops_block {block : Fields Json} (hproper : (Json.obj block).Proper) (htype : Fields.type? block = some "BlockStatement") :
    loopSites.collect (scopes, visited) (.obj block) =
      loopSites.collect (enter [blockNames (Json.field "body" (.obj block))] scopes, visited) (Json.field "body" (.obj block)) := by
  have hnext : loopSites.next (scopes, visited) "BlockStatement" block "body" =
      some (enter [blockNames (Json.field "body" (.obj block))] scopes, visited) :=
    congrArg some (Prod.ext (scopesAt_block scopes) (Bool.and_true visited))
  rw [collect_block hproper htype hnext, loops_own_eq_nil (by decide), List.nil_append]

theorem loops_blockOf (statements : List Json) : loopSites.collect (scopes, visited) (blockOf statements) =
    loopSites.collect (enter [blockNames (.arr statements)] scopes, visited) (.arr statements) := by
  have htype : Fields.type? (blockFields statements) = some "BlockStatement" := rfl
  have hnext : loopSites.next (scopes, visited) "BlockStatement" (blockFields statements) "body" =
      some (enter [blockNames (.arr statements)] scopes, visited) :=
    congrArg some (Prod.ext (scopesAt_block scopes) (Bool.and_true visited))
  rw [show blockOf statements = .obj (blockFields statements) from rfl, collect_entered htype (by decide), loops_own_eq_nil (by decide)]
  change [] ++ (loopSites.part _ _ (blockFields statements) "type" _ ++
    (loopSites.part _ _ (blockFields statements) "body" _ ++ [])) = _
  rw [part_inert rfl, part_of_next (by decide) hnext, List.nil_append, List.nil_append, List.append_nil]

/-- The made return around an expression has the loops of the expression. -/
theorem loops_returnOf (v : Json) : loopSites.collect (scopes, visited) (.arr [returnOf v]) =
    loopSites.collect (scopes, visited) v := by
  have htype : Fields.type? (returnFields v) = some "ReturnStatement" := rfl
  have hnext : loopSites.next (scopes, visited) "ReturnStatement" (returnFields v) "argument" = some (scopes, visited) :=
    congrArg some (Prod.ext (scopesAt_of_other (by decide) scopes) (Bool.and_true visited))
  rw [collect_singleton rfl, show returnOf v = .obj (returnFields v) from rfl, collect_entered htype (by decide),
    loops_own_eq_nil (by decide)]
  change [] ++ (loopSites.part _ _ (returnFields v) "type" _ ++ (loopSites.part _ _ (returnFields v) "argument" _ ++
    (loopSites.part _ _ (returnFields v) "loc" _ ++ []))) = _
  rw [part_inert rfl, part_of_next (by decide) hnext]
  exact List.append_nil _

/-- A statement in a branch, and the block it is put into. -/
theorem loops_asBlock (htype : Fields.type? fields = some type) :
    loopSites.collect (enter [blockNames (.obj fields)] scopes, visited) (.obj fields) =
      loopSites.collect (scopes, visited) (asBlock (.obj fields)) := by
  by_cases hblock : type = "BlockStatement"
  · subst hblock
    rw [asBlock_of_block htype, blockNames_of_type htype (by decide), enter_empty]
  · have hnode : (Json.obj fields).isNode = true := Json.isNode_of_type? (j := .obj fields) htype
    rw [asBlock_of_other htype hblock, loops_blockOf, blockNames_singleton hnode, collect_singleton hnode]

/-- The handler of a guard has no loops. -/
theorem loops_handler (line name : Json) : loopSites.collect (scopes, false) (handler line name) = [] := by
  have hflat (scopes : List (List String)) : loopSites.Flat (scopes, false) := loopSites_flat scopes
  have hblock (scopes : List (List String)) : loopSites.collect (scopes, false) (.obj (handlerFields line name)) = [] := by
    refine (loops_blockOf _).trans (collect_silent fun x hx => ?_)
    simp only [List.mem_cons, List.not_mem_nil, or_false] at hx
    rcases hx with rfl | rfl
    · exact ((hflat _).collect_literals "throw" line [("name", name)]).trans rfl
    · rw [(hflat _).collect_flat "ThrowStatement" rfl (by decide) (by decide)]
      simp [(hflat _).collect_ident]
  have htype : (handler line name).type? = some "CatchClause" := rfl
  have hparam : ¬ ("param" = "loc" ∨ "param" = "range") := by decide
  have hbody : ¬ ("body" = "loc" ∨ "body" = "range") := by decide
  rw [show handler line name = .obj [("type", .str "CatchClause"), ("param", .ident (.str caughtName)),
      ("body", .obj (handlerFields line name))] from rfl] at htype ⊢
  rw [collect_entered htype (by decide), loops_own_eq_nil (by decide), List.flatMap_cons, List.flatMap_cons, List.flatMap_cons,
    List.flatMap_nil, part_inert rfl, loops_part hparam, loops_part hbody, Bool.false_and, Bool.false_and, (hflat _).collect_ident,
    hblock]
  rfl

end Surroundings

/-! ## Bodies -/

section Bodies

variable {scopes : List (List String)} {code : Option String} {classes : List Json} {up : Option Json} {type : String} {name : Json}
  {fields made out : Fields Json}

/-- A rewritten block whatever is put into its list. -/
theorem loops_rewrittenBlock {block : Fields Json} (items : List Json)
    (hnode : RewrittenNode code classes up "BlockStatement" name block made out) :
    loopSites.collect (scopes, false) (.obj (Fields.set "body" (.arr items) out)) =
      loopSites.collect (enter [blockNames (.arr items)] scopes, false) (.arr items) := by
  have hfield : Json.field "body" (.obj (Fields.set "body" (.arr items) out)) = .arr items :=
    Json.field_of_get? (by rw [Fields.get?_set, if_pos rfl])
  have hscopes : scopesAt scopes "BlockStatement" (Fields.set "body" (.arr items) out) "body" =
      enter [blockNames (.arr items)] scopes := by rw [scopesAt_block, hfield]
  have hnext : loopSites.next (scopes, false) "BlockStatement" (Fields.set "body" (.arr items) out) "body" =
      some (enter [blockNames (.arr items)] scopes, false) := congrArg some (Prod.ext hscopes rfl)
  rw [collect_rewrittenBlock items hnode hnext, loops_own_eq_nil (by decide), List.nil_append]

/-- The records of an iteration, in front of the statements of a loop, have no names and no loops. -/
theorem records_of_iteration {line left : Json} {records : List Json} (h : Visit.iterationProbes line left = .ok records)
    (type : String) : ∀ r ∈ Probe.statement "loop" line [("loopType", .literal (.str (Visit.loopTag type)))] :: records,
      IsRecordStatement r ∧ ∀ scopes, loopSites.collect (scopes, false) r = [] := by
  intro r hr
  rcases List.mem_cons.1 hr with rfl | hr
  · refine ⟨isRecordStatement_statement .., fun scopes => ?_⟩
    exact ((loopSites_flat scopes).collect_literals "loop" line [("loopType", .str (Visit.loopTag type))]).trans rfl
  · refine ⟨(isLocals_of_iteration h r hr).isRecordStatement, fun scopes => ?_⟩
    obtain ⟨kind, hkind, line, targets, htargets, rfl⟩ := exists_of_mem_iteration h hr
    rw [localsStatement, (loopSites_flat scopes).collect_expressionStatement,
      (loopSites_flat scopes).collect_locals hkind line htargets]

/-- The body of a loop has the loops of the block it was made from. -/
theorem loops_loopBody {k : FrameKind} {block bmade plain : Fields Json} {bname w o : Json} {classes' : List Json}
    {up' : Option Json} (hframe : Rewriting.Frame code classes up type fields made k w o) (hbody : k ∈ [.same, .iteration, .counted])
    (hw : w = .obj plain) (hblock : RewrittenNode code classes' up' "BlockStatement" bname block bmade plain) :
    loopSites.collect (scopes, false) o = loopSites.collect (scopes, false) w := by
  obtain ⟨ss, ts, -, hitems, -⟩ := hblock.exists_weave "body" rfl
  generalize weave ss ts = items at hitems
  have hself : Fields.set "body" (.arr items) plain = plain := Fields.set_of_get? hitems
  have hplain : loopSites.collect (scopes, false) w =
      loopSites.collect (enter [blockNames (.arr items)] scopes, false) (.arr items) := by
    rw [hw, ← loops_rewrittenBlock items hblock, hself]
  have hframed {f : List Json → List Json} (records : List Json) (hf : ∀ items, f items = records ++ items)
      (hrecords : ∀ r ∈ records, IsRecordStatement r ∧ ∀ scopes, loopSites.collect (scopes, false) r = []) :
      loopSites.collect (scopes, false) (onList "body" f w) = loopSites.collect (scopes, false) w := by
    have hnames : blockNames (.arr (records ++ items)) = blockNames (.arr items) := by
      rw [blockNames, namesIn_append, namesIn_records fun r hr => (hrecords r hr).1, List.nil_append]
      rfl
    rw [hplain, hw, onList_obj _ hitems, loops_rewrittenBlock _ hblock, hf, collect_append, hnames,
      collect_silent fun r hr => (hrecords r hr).2 _, List.nil_append]
  cases hframe with
  | same | uncounted => rfl
  | iteration line _ records hline hrecords => exact hframed (_ :: records) (fun _ => rfl) (records_of_iteration hrecords type)
  | counted line _ text =>
    refine hframed [_] (fun _ => rfl) fun r hr => ?_
    rw [List.mem_singleton.1 hr]
    refine ⟨isRecordStatement_statement .., fun scopes => ?_⟩
    exact ((loopSites_flat scopes).collect_literals "test" line [("expression", .str text), ("result", .bool true)]).trans rfl
  | _ => simp at hbody

/-- The body of a function: its statements stand in the block that is tried. -/
theorem loops_functionBody (line endLine name : Json) (params : List Json) {items : List Json}
    (hdirectives : ∀ d ∈ items.takeWhile isDirective, d.Proper ∧ d.isNode = true) :
    loopSites.collect (enter [blockNames (.arr (functionBody line endLine name params items))] scopes, false)
        (.arr (functionBody line endLine name params items)) =
      loopSites.collect (enter [blockNames (.arr items)] scopes, false) (.arr items) := by
  have hflat (scopes : List (List String)) : loopSites.Flat (scopes, false) := loopSites_flat scopes
  have hsilent (scopes : List (List String)) : loopSites.collect (scopes, false) (.arr (items.takeWhile isDirective)) = [] :=
    collect_silent fun d hd => (hflat _).collect_directive (hdirectives d hd).1 (hdirectives d hd).2
      (List.all_eq_true.1 List.all_takeWhile d hd)
  have hrest (scopes : List (List String)) : loopSites.collect (scopes, false) (.arr (items.dropWhile isDirective)) =
      loopSites.collect (scopes, false) (.arr items) := by
    rw [← List.nil_append (loopSites.collect _ _), ← hsilent scopes, ← collect_append, List.takeWhile_append_dropWhile]
  have hcalled (scopes : List (List String)) : loopSites.collect (scopes, false) (called line name params) = [] :=
    ((hflat scopes).collect_called line name params).trans rfl
  have hnames : blockNames (.arr (closed (items.dropWhile isDirective) endLine)) = blockNames (.arr items) := by
    rw [blockNames, namesIn_closed, namesIn_dropWhile hdirectives]
    rfl
  rw [blockNames_functionBody hdirectives, enter_empty, (hflat scopes).collect_guardedBody, hsilent, hcalled, loops_blockOf, hnames,
    (hflat _).collect_closed, hrest, loops_handler]
  simp

end Bodies

/-! ## Loops that are rewritten -/

section Loops

variable {scopes : List (List String)} {code : Option String} {classes : List Json} {up : Option Json} {type key : String} {name : Json}
  {fields made out : Fields Json} (hnode : RewrittenNode code classes up type name fields made out)

/-- A loop that is not visited stays as it is. -/
theorem Rewriting.LoopRewritten.of_kept {l : LoopSite} (h : l.visited = false) : LoopRewritten l l :=
  ⟨rfl, fun _ => rfl, fun hvisited => by rw [h] at hvisited; cases hvisited⟩

theorem loops_kept (scopes : List (List String)) (v : Json) : ∀ l ∈ loopSites.collect (scopes, false) v, l.visited = false := by
  have hall : v.everyObject (fun _ => true) = true := Json.everyObject_of_forall (fun _ => rfl) v
  refine forall_collect (I := fun c => c.2 = false) (Q := fun l : LoopSite => l.visited = false)
    (fun c type fields key c' hc hnext => ?_)
    (fun c type fields hc _ _ l hl => ?_) (scopes, false) v rfl hall
  · cases hnext
    rw [hc]
    rfl
  · change l ∈ (if _ then _ else _) at hl
    split at hl
    · rw [List.mem_singleton.1 hl]
      exact hc
    · cases hl

include hnode

/-- The body of a loop over keys or values, as a block, and what becomes of it. -/
theorem RewrittenNode.exists_loopBody (heach : type ∈ eachTypes) :
    ∃ body block bname bmade plain ss ts line records, Fields.get? "body" fields = some body ∧ asBlock body = .obj block ∧
      RewrittenNode code (classesAt classes type "body" name) (some (.obj fields)) "BlockStatement" bname block bmade plain ∧
      Fields.get? "body" block = some (.arr ss) ∧ Fields.get? "body" plain = some (.arr (weave ss ts)) ∧
      Node.line (.obj fields) = .ok line ∧ Visit.iterationProbes line (Json.field "left" (.obj fields)) = .ok records ∧
      Fields.get? "body" out = some (.obj (Fields.set "body" (.arr (Probe.statement "loop" line [("loopType",
        .literal (.str (Visit.loopTag type)))] :: records ++ weave ss ts)) plain)) := by
  have hall : ∀ t ∈ eachTypes, frameKind t "body" = .iteration ∧ IsBranch t "body" ∧
      ∃ types, (Grammar.shape t).bind (Fields.get? "body") = some (.node types) := by
    simp only [eachTypes, List.mem_cons, List.not_mem_nil, or_false]
    rintro t (rfl | rfl) <;> exact ⟨rfl, .inr ⟨by decide, rfl⟩, _, rfl⟩
  obtain ⟨hkind, hbranch, types, hslot⟩ := hall type heach
  obtain ⟨slots, hshape, hslot⟩ := Option.bind_eq_some_iff.1 hslot
  obtain ⟨body, btype, hbody, hbtype, -⟩ := Json.fits_node (hnode.proper.fits "body" hnode.type hshape hslot)
  have hcompleted : Fields.get? "body" (completed type fields) = some (.obj body) := (get?_completed_of_ne (by decide)).trans hbody
  obtain ⟨o, ho⟩ := Fields.exists_get?_of_names hnode.names_completed hcompleted
  obtain ⟨w, hprepared, hw, hframe⟩ := hnode.exists_made hcompleted ho
  have hrw := hnode.field _ _ w hprepared hw
  obtain ⟨block, hready, hblocktype⟩ := exists_asBlock hbtype
  rw [readyField_statement hbranch, hready, mode_of_ready (.inl hbranch)] at hrw
  obtain ⟨bname, bmade, plain, rfl, hbnode⟩ := hrw.exists_node hblocktype
  obtain ⟨ss, ts, hss, hts, -⟩ := hbnode.exists_weave "body" rfl
  rw [hkind] at hframe
  cases hframe with
  | iteration line _ records hline hrecords =>
    rw [onList_obj _ hts] at ho
    exact ⟨_, block, bname, bmade, plain, ss, ts, line, records, hbody, hready, hbnode, hss, hts, hline, hrecords, ho⟩

/-- A loop over keys or values is rewritten as told. -/
theorem RewrittenNode.loopRewritten (heach : type ∈ eachTypes) : LoopRewritten ⟨scopes, true, fields⟩ ⟨scopes, false, out⟩ := by
  obtain ⟨body, block, bname, bmade, plain, ss, ts, line, records, hbody, hready, hbnode, hss, hts, hline, hrecords, ho⟩ :=
    hnode.exists_loopBody heach
  have hblock (items : List Json) : Fields.type? (Fields.set "body" (.arr items) plain) = some "BlockStatement" :=
    (Fields.type?_set (by decide) _ _).trans hbnode.type?_out
  refine ⟨rfl, nofun, fun _ => ⟨type, line, records, _, weave ss ts, heach, hnode.type, hnode.type?_out, hline, hrecords, ho, hblock _,
    by rw [Fields.get?_set, if_pos rfl], fun n _ => ?_⟩⟩
  -- the records in front of the statements declare nothing, so the block has the names it had
  have hnames : blockNames (.arr (Probe.statement "loop" line [("loopType", .literal (.str (Visit.loopTag type)))] :: records ++
      weave ss ts)) = blockNames ((asBlock (Json.field "body" (.obj fields))).field "body") := by
    have hwoven : blockNames (.arr (weave ss ts)) = blockNames (.arr ss) := hbnode.namesIn_weave hss hts
    rw [Json.field_of_get? hbody, hready, Json.field_of_get? hss, ← hwoven, blockNames, namesIn_append,
      namesIn_records fun r hr => (records_of_iteration hrecords type r hr).1, List.nil_append]
    rfl
  have hleft : scopesAt scopes type fields "left" = enter (nodeScopes type fields "body") scopes := by
    simp only [eachTypes, List.mem_cons, List.not_mem_nil, or_false] at heach
    rcases heach with rfl | rfl <;> rfl
  rw [LoopSite.bodyScopes, LoopSite.leftScopes, scopesAt_block, hnode.scopesAt_branch (hblock _) ho, hleft,
    Json.field_of_get? (by rw [Fields.get?_set, if_pos rfl]), hnames]
  exact bindingOf_enter_iff ..

end Loops

/-! ## Rewritten nodes -/

/-- What is shown by induction of a value and what it becomes: the loops match, and so do those in the list of a block. -/
def LoopsMatch (m : Mode) (v w : Json) : Prop :=
  loopSites.Matched (fun scopes => (scopes, true)) (fun scopes => (scopes, false)) LoopRewritten (fun _ => False) m v w

section Fields

variable {scopes : List (List String)} {code : Option String} {classes : List Json} {up : Option Json} {type key : String} {name : Json}
  {fields made out : Fields Json} (hnode : RewrittenNode code classes up type name fields made out)

include hnode

/-- A field that is kept has the loops it had. -/
theorem RewrittenNode.loops_kept {v o w : Json} (hv : Fields.get? key (completed type fields) = some v)
    (hmode : mode type fields key = .kept)
    (hrw : Rewrites code (mode type fields key) (classesAt classes type key name) (some (.obj fields)) (readyField type key v) w)
    (hframe : Rewriting.Frame code classes up type fields made (frameKind type key) w o)
    (hposition : ¬ (key = "loc" ∨ key = "range")) :
    Matches LoopRewritten (fun _ => False) (loopSites.part (scopes, true) type fields key v)
      (loopSites.part (scopes, false) type out key o) := by
  obtain ⟨hother, rfl⟩ := eq_of_kept hmode hrw hframe
  rw [loops_part hposition, loops_part hposition, hnode.scopesAt_eq fun h => hother (.inl h)]
  by_cases hid : type = "VariableDeclarator" ∧ key = "id"
  · obtain ⟨rfl, rfl⟩ := hid
    exact .of_refl fun l hl => .of_kept (ScriptTrace.loops_kept _ _ l hl)
  have hnothing (scopes : List (List String)) (visited : Bool) : loopSites.collect (scopes, visited) o = [] := by
    have hall : ∀ t ∈ leafTypes, t ∉ eachTypes := by decide
    exact collect_kept (fun t ht leaf => loops_own_eq_nil (hall t ht)) hnode.proper hnode.type hv hmode hposition hid
  rw [hnothing, hnothing]
  exact .nil

/-- The body of a function that is instrumented. -/
theorem RewrittenNode.loops_function (hfunction : type ∈ functionTypes)
    (ih : ∀ key v w, Fields.get? key (prepared type fields) = some v → Fields.get? key made = some w →
      LoopsMatch (mode type fields key) v w) {v o : Json} (hv : Fields.get? "body" (completed type fields) = some v)
    (ho : Fields.get? "body" out = some o) :
    Matches LoopRewritten (fun _ => False) (loopSites.part (scopes, true) type fields "body" v)
      (loopSites.part (scopes, false) type out "body" o) := by
  obtain ⟨body, block, bname, bmade, plain, ss, ts, line, endLine, fname, params, hbody, hready, hbnode, hmade, hss, hts, htake,
    hproper, hout⟩ := hnode.exists_functionBody hfunction
  cases ho.symm.trans hout
  rw [get?_completed_of_ne (by decide), hbody] at hv
  cases hv
  have hprepared : Fields.get? "body" (prepared type fields) = some (.obj block) := by
    rw [get?_prepared_eq, get?_completed_of_ne (by decide), hbody, Option.map_some, readyField_function hfunction, hready]
  have hdirectives : ∀ d ∈ (weave ss ts).takeWhile isDirective, d.Proper ∧ d.isNode = true := fun d hd =>
    hproper d ((List.takeWhile_prefix isDirective).subset (htake ▸ hd))
  rw [loops_part (by decide), loops_part (by decide), hnode.scopesAt_eq (not_isBranch_of_function hfunction)]
  generalize scopesAt scopes type fields "body" = scopes
  have hdeclarator : (type == "VariableDeclarator" && "body" == "id") = false := Bool.and_false _
  rw [hdeclarator, Bool.not_false, Bool.and_true, Bool.and_true, loops_rewrittenBlock _ hbnode, loops_functionBody _ _ _ _ hdirectives]
  have hwoven : blockNames (.arr (weave ss ts)) = blockNames (.arr ss) := hbnode.namesIn_weave hss hts
  have hbelow (scopes : List (List String)) := (ih "body" _ _ hprepared hmade
    (by rw [mode_of_ready (.inr ⟨hfunction, rfl⟩)]; decide) scopes).2 hbnode.type
  rw [hwoven]
  rw [Json.field_of_get? hss, Json.field_of_get? hts] at hbelow
  by_cases hblock : (Json.obj body).type? = some "BlockStatement"
  · rw [bodyBlock_of_block hblock] at hready
    cases hready
    rw [loops_block hbnode.proper hbnode.type, Json.field_of_get? hss]
    exact hbelow _
  · -- an expression is returned from a block that declares nothing
    rw [bodyBlock_of_other hblock] at hready
    obtain rfl : blockFields [returnOf (.obj body)] = block := Json.obj.inj hready
    obtain rfl : [returnOf (.obj body)] = ss := Json.arr.inj (Option.some.inj hss)
    have hnothing : blockNames (.arr [returnOf (.obj body)]) = [] := by
      have htype : (returnOf (.obj body)).type? = some "ReturnStatement" := rfl
      rw [blockNames_singleton rfl]
      exact namesIn_of_nil (declarations_eq_nil htype (by decide))
    have hreturned := hbelow scopes
    rw [loops_returnOf] at hreturned
    rw [hnothing, enter_empty]
    exact hreturned

/-- A branch, or the body of a loop. -/
theorem RewrittenNode.loops_branch (hbranch : IsBranch type key)
    (ih : ∀ key v w, Fields.get? key (prepared type fields) = some v → Fields.get? key made = some w →
      LoopsMatch (mode type fields key) v w) {v o : Json} (hv : Fields.get? key (completed type fields) = some v)
    (ho : Fields.get? key out = some o) (hposition : ¬ (key = "loc" ∨ key = "range")) :
    Matches LoopRewritten (fun _ => False) (loopSites.part (scopes, true) type fields key v)
      (loopSites.part (scopes, false) type out key o) := by
  obtain ⟨w, hprepared, hw, hframe⟩ := hnode.exists_made hv ho
  have hih := ih key _ w hprepared hw
  have hrw := hnode.field key _ w hprepared hw
  rw [mode_of_ready (.inl hbranch)] at hih hrw
  rw [readyField_statement hbranch] at hih hrw
  have hdeclarator : (type == "VariableDeclarator" && key == "id") = false := by
    rcases hbranch with ⟨rfl, -⟩ | ⟨-, rfl⟩
    · rfl
    · exact Bool.and_false _
  rw [loops_part hposition, loops_part hposition, hdeclarator, Bool.not_false, Bool.and_true, Bool.and_true]
  obtain ⟨hkind, ⟨rfl, hsame⟩ | ⟨branch, btype, rfl, hbtype⟩⟩ := exists_branch hnode.proper hnode.type hbranch hv
  · rw [hsame, Rewriting.Frame.same_iff] at hframe
    obtain rfl : w = .null := by
      cases hrw
      rfl
    rw [hframe]
    exact .nil
  · obtain ⟨block, hblock, hblocktype⟩ := exists_asBlock hbtype
    have hfield : Json.field key (.obj fields) = .obj branch := by
      have hcompleted : Fields.get? key (completed type fields) = Fields.get? key fields := get?_completed_of_ne (by
        rcases hbranch with ⟨-, hkey⟩ | ⟨-, rfl⟩
        · simp only [List.mem_cons, List.not_mem_nil, or_false] at hkey
          rcases hkey with rfl | rfl <;> decide
        · decide)
      exact Json.field_of_get? (hcompleted.symm.trans hv)
    rw [scopesAt_of_branch hbranch, hfield, loops_asBlock hbtype]
    rw [hblock] at hih hrw ⊢
    obtain ⟨bname, bmade, plain, hplain, hbnode⟩ := hrw.exists_node hblocktype
    obtain ⟨body, rfl, hbodytype⟩ : ∃ body, o = .obj body ∧ Fields.type? body = some "BlockStatement" := by
      have hbody : frameKind type key = .same ∨ frameKind type key ∈ [.iteration, .counted] ++ [FrameKind.function] :=
        (List.mem_cons.1 hkind).imp_right (List.mem_append_left _)
      have htype : o.type? = some "BlockStatement" := (hframe.type?_eq hbody).1.trans (hplain ▸ hbnode.type?_out)
      cases o with
      | obj body => exact ⟨body, rfl, htype⟩
      | _ => cases htype
    rw [hnode.scopesAt_branch hbodytype ho, loops_loopBody hframe hkind hplain hbnode]
    exact (hih (by decide) _).1

/-- Each field of a rewritten node has the loops it had. -/
theorem RewrittenNode.loops_field (ih : ∀ key v w, Fields.get? key (prepared type fields) = some v →
      Fields.get? key made = some w → LoopsMatch (mode type fields key) v w) {v o : Json}
    (hv : Fields.get? key (completed type fields) = some v) (ho : Fields.get? key out = some o) :
    Matches LoopRewritten (fun _ => False) (loopSites.part (scopes, true) type fields key v)
      (loopSites.part (scopes, false) type out key o) := by
  by_cases hposition : key = "loc" ∨ key = "range"
  · rw [part, part, if_pos hposition, if_pos hposition]
    exact .nil
  obtain ⟨w, hprepared, hw, hframe⟩ := hnode.exists_made hv ho
  have hrw := hnode.field key _ w hprepared hw
  by_cases hkept : mode type fields key = .kept
  · exact hnode.loops_kept hv hkept hrw hframe hposition
  by_cases hbranch : IsBranch type key
  · exact hnode.loops_branch hbranch ih hv ho hposition
  by_cases hfunction : type ∈ functionTypes ∧ key = "body"
  · obtain ⟨hfunction, rfl⟩ := hfunction
    exact hnode.loops_function hfunction ih hv ho
  have hother : ¬ (IsBranch type key ∨ type ∈ functionTypes ∧ key = "body") := not_or.2 ⟨hbranch, hfunction⟩
  have hdeclarator : (type == "VariableDeclarator" && key == "id") = false := by
    rw [Bool.and_eq_false_iff, beq_eq_false_iff_ne, beq_eq_false_iff_ne, ← not_and_or]
    rintro ⟨rfl, rfl⟩
    exact hkept rfl
  have hih := ih key _ w hprepared hw hkept (scopesAt scopes type fields key)
  rw [readyField_of_other hother] at hih
  rw [loops_part hposition, loops_part hposition, hnode.scopesAt_eq hbranch, hdeclarator, Bool.not_false, Bool.and_true, Bool.and_true]
  generalize scopesAt scopes type fields key = scopes at hih ⊢
  exact (loopSites_flat scopes).matches_framed (fun _ => loops_own_eq_nil (by decide)) (fun _ => loops_own_eq_nil (by decide))
    (fun _ _ _ _ _ => loops_own_eq_nil (by decide)) hnode (fun h => hother (ready_of_framed h)) hv hrw hframe hih.1

/-- The loop that a rewritten node is. -/
theorem RewrittenNode.loops_own : Matches LoopRewritten (fun _ => False) (loopSites.own (scopes, true) type fields)
    (loopSites.own (scopes, false) type out) := by
  by_cases heach : type ∈ eachTypes
  · have hown (visited : Bool) (node : Fields Json) : loopSites.own (scopes, visited) type node = [⟨scopes, visited, node⟩] :=
      if_pos heach
    rw [hown, hown]
    exact .cons (hnode.loopRewritten heach) .nil
  · rw [loops_own_eq_nil heach, loops_own_eq_nil heach]
    exact .nil

end Fields

section Values

variable {code : Option String} {m : Mode} {classes : List Json} {up : Option Json}

/-- The loops of a value match those of what it becomes. -/
theorem Rewrites.loops_match {v w : Json} (h : Rewrites code m classes up v w) : LoopsMatch m v w :=
  matched_of_rewrites (fun scopes => (loopSites_flat scopes).collect_woven fun _ => loops_own_eq_nil (by decide))
    (fun hnode ih _ => ⟨hnode.loops_own, fun _ _ _ => hnode.loops_field ih⟩) h

end Values

/-! ## Programs -/

/-- What is matched without extras is matched item by item. -/
theorem Matches.forall₂ {α β : Type} {R : α → β → Prop} {as : List α} {bs : List β} (h : Matches R (fun _ => False) as bs) :
    List.Forall₂ R as bs := by
  induction h with
  | nil => exact .nil
  | cons hab _ ih => exact .cons hab ih
  | extra he _ _ => exact he.elim

/-- The records of an instrumented loop read the variables of its left side, but those that its body declares anew. -/
theorem instrument_loops {tree out : Json} {code : Option String} (h : tree.WellFormed) (hrun : instrument tree code = .ok out) :
    List.Forall₂ LoopRewritten (loops true tree) (loops false out) :=
  ((instrument_rewrites h hrun).loops_match (by decide) []).1.forall₂

/-- A loop over values with statements in its body: `for (const x of xs) { ... }`. -/
def eachProgram (statements : List Json) : Json :=
  let declaration : Json := .obj [("type", .str "VariableDeclaration"), ("declarations", .arr [
    .obj [("type", .str "VariableDeclarator"), ("id", .ident (.str "x")), ("init", .null)]]), ("kind", .str "const")]
  .obj [("type", .str "Program"), ("body", .arr [.obj [("type", .str "ForOfStatement"), ("left", declaration),
    ("right", .ident (.str "xs")), ("body", blockOf statements)]]), ("sourceType", .str "script")]

theorem instrument_loops_each : (eachProgram []).WellFormed ∧ (loops true (eachProgram [])).map LoopSite.visited = [true] ∧
    ∃ out, instrument (eachProgram []) none = .ok out ∧
      List.Forall₂ LoopRewritten (loops true (eachProgram [])) (loops false out) := by
  have hwell : (eachProgram []).WellFormed := by decide +kernel
  have hok : (instrument (eachProgram []) none).isOk = true := by decide +kernel
  refine ⟨hwell, by decide +kernel, ?_⟩
  cases hrun : instrument (eachProgram []) none with
  | ok out => exact ⟨out, rfl, instrument_loops hwell hrun⟩
  | error refusal => rw [hrun] at hok; cases hok

/-- A variable that is declared anew: `let x = 1;`. -/
def secondDeclaration : Json := .obj [("type", .str "VariableDeclaration"), ("declarations", .arr [
  .obj [("type", .str "VariableDeclarator"), ("id", .ident (.str "x")), ("init", .literal (.int 1))]]), ("kind", .str "let")]

/-- A body that declares the variable of its loop anew: the record at its head reads the variable of the body, which has no
value there. -/
theorem loopVariable_shadowed :
    let declared : Json := localsStatement "declare" (.int (-1)) [.named (.str "x")]
    let statements : List Json := [Probe.statement "loop" (.int (-1)) [("loopType", .literal (.str "for-of"))], declared,
      secondDeclaration, declared]
    (eachProgram [secondDeclaration]).WellFormed ∧
      instrument (eachProgram [secondDeclaration]) none = .ok (eachProgram statements) ∧
      (loops true (eachProgram [secondDeclaration])).map (fun l => bindingOf "x" (l.leftScopes "ForOfStatement")) = [[["x"]]] ∧
      (loops false (eachProgram statements)).map
        (fun l => bindingOf "x" (l.bodyScopes "ForOfStatement" (blockFields statements))) = [[["x"], ["x"]]] := by
  intro declared statements
  exact ⟨by decide +kernel, instrument_eq_ok (by decide +kernel), by decide +kernel, by decide +kernel⟩

end ScriptTrace
