import ScriptTrace.Proofs.Redeclarations

/-!
# Where names are bound

A name is bound by the innermost scope around it that declares it. Scopes are told by the names they declare, those that
only probes have left out, and scopes without names are not told at all. So the scopes around a node stay what they were,
whatever guards and blocks are put around it.

* `bindingOf` : the scope that binds a name, with the scopes around it;
* `nodeScopes`, `scopesAt` : the scopes of a node around one of its fields, and all scopes there;
* `RewrittenNode.scopesAt_eq` : an instrumented node has the scopes it had;
* `RewrittenNode.scopesAt_branch` : the same of its branches, which become blocks.
-/

namespace ScriptTrace

open Probe Rewriting Survey

/-! ## Bindings -/

/-- The scope that binds a name, with the scopes around it; nothing for a name that is not declared. -/
def bindingOf (name : String) (scopes : List (List String)) : List (List String) := scopes.dropWhile fun scope => !scope.contains name

/-- A further scope is in the way exactly of the names that it declares. -/
theorem bindingOf_cons_iff (name : String) (scope : List String) (scopes : List (List String)) :
    bindingOf name (scope :: scopes) = bindingOf name scopes ↔ name ∉ scope := by
  unfold bindingOf
  rw [List.dropWhile_cons]
  by_cases hname : name ∈ scope
  · simp only [List.contains_iff_mem.2 hname, Bool.not_true, Bool.false_eq_true, if_false, hname, not_true, iff_false]
    intro h
    have hlength := (List.dropWhile_suffix (fun scope : List String => !scope.contains name) (l := scopes)).length_le
    rw [← h, List.length_cons] at hlength
    omega
  · simp [hname]

/-- Scopes with further ones inside; those without names are left out. -/
def enter (inner scopes : List (List String)) : List (List String) := inner.filter (!·.isEmpty) ++ scopes

theorem enter_append (as bs scopes : List (List String)) : enter (as ++ bs) scopes = enter as (enter bs scopes) := by
  rw [enter, enter, enter, List.filter_append, List.append_assoc]

@[simp] theorem enter_empty (scopes : List (List String)) : enter [[]] scopes = scopes := rfl

theorem bindingOf_enter_iff (name : String) (scope : List String) (scopes : List (List String)) :
    bindingOf name (enter [scope] scopes) = bindingOf name scopes ↔ name ∉ scope := by
  cases scope with
  | nil => exact iff_of_true rfl List.not_mem_nil
  | cons n names => exact bindingOf_cons_iff name (n :: names) scopes

/-! ## Scopes -/

namespace Rewriting

/-- The names that a value declares in some ways. Names that only probes have are left out. -/
def namesIn (kinds : DeclKind → Bool) (d : Depth) (v : Json) : List String :=
  ((declarations.collect d v).filter fun n => kinds n.1 && !Json.isReserved n.2).map Prod.snd

/-- The names that statements declare for their block. -/
def blockNames (v : Json) : List String := namesIn (DeclKind.isLexical false) .item v

/-- The variables declared in a value, but not in the functions there. -/
def variableNames (v : Json) : List String := namesIn (fun kind => !kind.isLexical false) .below v

/-- The names that a pattern binds. -/
def patternNames (v : Json) : List String := namesIn (fun _ => true) (.binding .lexical) v

/-- The scopes that a node puts around one of its fields, the innermost first. -/
def nodeScopes (type : String) (fields : Fields Json) (key : String) : List (List String) :=
  let field (k : String) : Json := .field k (.obj fields)
  if type = "Program" then [namesIn (fun _ => true) .item (field "body")]
  else if type = "BlockStatement" then [blockNames (field "body")]
  else if type = "SwitchStatement" then if key = "cases" then [blockNames (field "cases")] else []
  else if type = "CatchClause" then [patternNames (field "param")]
  else if type = "ForStatement" then [blockNames (field "init")]
  else if type ∈ ["ForInStatement", "ForOfStatement"] then [blockNames (field "left")]
  else if type ∈ classTypes then [patternNames (field "id")]
  else if type ∈ functionTypes ∧ key ∈ ["params", "body"] then
    [if key = "body" then variableNames ((bodyBlock (field "body")).field "body") else [],
      (if type = "ArrowFunctionExpression" then [] else ["arguments"]) ++ patternNames (field "params"),
      if type = "FunctionExpression" then patternNames (field "id") else []]
  else []

/-- The scope around a branch or the body of a loop, which is read as a block. -/
def branchScopes (type : String) (fields : Fields Json) (key : String) : List (List String) :=
  if IsBranch type key then [blockNames (Json.field key (.obj fields))] else []

/-- The scopes around a field of a node, given those around the node. -/
def scopesAt (scopes : List (List String)) (type : String) (fields : Fields Json) (key : String) : List (List String) :=
  enter (branchScopes type fields key ++ nodeScopes type fields key) scopes

end Rewriting

/-! ## Names that stay -/

section Names

variable {kinds : DeclKind → Bool} {d : Depth} {v w : Json} {type : String} {fields : Fields Json}

/-- What becomes of a value declares the names that it did, but for those that only probes have. -/
theorem namesIn_eq (h : Matches (· = ·) CarriesProbes (declarations.collect d v) (declarations.collect d w)) :
    namesIn kinds d w = namesIn kinds d v := by
  refine congrArg (List.map Prod.snd) ?_
  generalize declarations.collect d v = as at h
  generalize declarations.collect d w = bs at h
  induction h with
  | nil => rfl
  | cons hab _ ih => rw [hab, List.filter_cons, List.filter_cons, ih]
  | extra he _ ih => rw [List.filter_cons, if_neg (by simp [he.2]), ih]

theorem namesIn_append (xs ys : List Json) :
    namesIn kinds d (.arr (xs ++ ys)) = namesIn kinds d (.arr xs) ++ namesIn kinds d (.arr ys) := by
  rw [namesIn, collect_append, List.filter_append, List.map_append]
  rfl

theorem namesIn_of_nil (h : declarations.collect d v = []) : namesIn kinds d v = [] := by
  rw [namesIn, h]
  rfl

/-- A statement that holds others declares nothing for its block. -/
theorem blockNames_of_type (htype : Fields.type? fields = some type) (hmem : type ∈ belowTable.flatMap Prod.fst) :
    blockNames (.obj fields) = [] := by
  rw [blockNames, namesIn, List.filter_eq_nil_iff.2 fun n hn => ?_, List.map_nil]
  rw [declarations_of_type htype hmem n hn]
  simp [DeclKind.isLexical]

theorem blockNames_singleton {x : Json} (h : x.isNode = true) : blockNames (.arr [x]) = blockNames x := by
  rw [blockNames, blockNames, namesIn, namesIn, collect_singleton h]

/-- Records declare nothing. -/
theorem namesIn_records {records : List Json} (h : ∀ r ∈ records, IsRecordStatement r) : namesIn kinds d (.arr records) = [] :=
  namesIn_of_nil (declarations_records h)

end Names

section Nodes

variable {kinds : DeclKind → Bool} {d : Depth} {code : Option String} {classes : List Json} {up : Option Json} {type key : String}
  {name : Json} {fields made out : Fields Json} (hnode : RewrittenNode code classes up type name fields made out)

include hnode

/-- A field that is neither prepared nor framed declares the names that it did. -/
theorem RewrittenNode.namesIn_field (hmode : mode type fields key ≠ .kept) (hsame : frameKind type key = .same)
    (hready : ∀ v, readyField type key v = v) (hkey : key ∉ ["argument", "expression"]) :
    namesIn kinds d (Json.field key (.obj out)) = namesIn kinds d (Json.field key (.obj fields)) := by
  have hcompleted : Fields.get? key (completed type fields) = Fields.get? key fields := get?_completed_of_ne hkey
  cases hv : Fields.get? key fields with
  | none =>
    have ho : Fields.get? key out = none := by
      rw [Fields.get?_eq_none, hnode.names_completed, ← Fields.get?_eq_none, hcompleted, hv]
    rw [Json.field, Json.field, Json.get?, Json.get?, ho, hv]
  | some v =>
    obtain ⟨o, ho⟩ := Fields.exists_get?_of_names hnode.names_completed (hcompleted.trans hv)
    obtain ⟨w, hprepared, hw, hframe⟩ := hnode.exists_made (hcompleted.trans hv) ho
    have hrw := hnode.field key _ w hprepared hw
    rw [hready] at hrw
    rw [hsame, Rewriting.Frame.same_iff] at hframe
    rw [Json.field_of_get? ho, Json.field_of_get? hv, hframe]
    exact namesIn_eq (hrw.declarations_match hmode d)

/-- A name that is kept declares what it did. -/
theorem RewrittenNode.field_kept (hmode : mode type fields key = .kept)
    (hkey : key ∉ ["argument", "expression", "consequent", "alternate", "body"]) :
    Json.field key (.obj out) = Json.field key (.obj fields) := by
  rw [Json.field, Json.field, Json.get?, Json.get?, hnode.get?_kept hmode hkey]

end Nodes

/-! ## Counted loops -/

section Counted

variable {code : Option String} {classes : List Json} {up : Option Json} {fields made : Fields Json}

/-- A declaration of variables declares what its declarators bind. -/
theorem declarations_item {decl : Fields Json} (htype : Fields.type? decl = some "VariableDeclaration")
    (hnodup : (Fields.names decl).Nodup) : declarations.collect .item (.obj decl) =
      declarations.collect (.binding (declKind "VariableDeclaration" decl)) (Json.field "declarations" (.obj decl)) := by
  have hother {k : String} (hk : k ≠ "declarations") : declarations.next .item "VariableDeclaration" decl k = none := by
    change (if _ then _ else _) = _
    rw [if_neg (by simp [declaredField, hk]), if_neg (by simp), if_neg (by simp [ofGroup, belowTable, loopTypes])]
  have hnext : declarations.next .item "VariableDeclaration" decl "declarations" =
      some (.binding (declKind "VariableDeclaration" decl)) := by
    change belowOf .item "VariableDeclaration" decl "declarations" = _
    rw [belowOf, if_pos (by decide), if_pos (.inl rfl)]
  rw [collect_only "declarations" htype (by decide) hnodup fun k v _ hk => by rw [part, hother hk, ite_self],
    part_of_next (by decide) hnext]
  rfl

/-- The initializer of a counted loop declares the names that it did. -/
theorem blockNames_init {w o : Json} (hframe : Rewriting.Frame code classes up "ForStatement" fields made .init w o)
    (hproper : (Json.obj fields).Proper) (htype : Fields.type? fields = some "ForStatement")
    (hw : w.type? = (Json.field "init" (.obj fields)).type?) (hlist : ∀ items, w ≠ .arr items)
    (hnodup : ∀ decl, w = .obj decl → Fields.type? decl = some "VariableDeclaration" → (Fields.names decl).Nodup) :
    blockNames o = blockNames w := by
  have hfollowed (probe : Json) (hnot : (Json.field "init" (.obj fields)).type? ≠ some "VariableDeclaration") :
      blockNames (sequenceOf w probe) = blockNames w := by
    have hsequence : (sequenceOf w probe).type? = some "SequenceExpression" := rfl
    have hnothing : declarations.collect .item (sequenceOf w probe) = [] := declarations_eq_nil hsequence (by decide)
    rw [blockNames, blockNames, namesIn_of_nil (declarations_initializer (.inl rfl) hproper htype hw hlist hnot),
      namesIn_of_nil hnothing]
  cases hframe with
  | noInit | initNothing => rfl
  | initAssigned line _ targets hline h => exact hfollowed _ h
  | initShown line _ text hline h => exact hfollowed _ h
  | initDeclared line _ n names hline h =>
    cases w with
    | obj decl =>
      have hdecl : Fields.type? decl = some "VariableDeclaration" := hw.trans h
      cases hv : Fields.get? "declarations" decl with
      | none => rw [onList, hv]
      | some v =>
        cases v with
        | arr items =>
          have hnd := hnodup decl rfl hdecl
          rw [onList_obj _ hv]
          generalize hset : Fields.set "declarations" (.arr (items ++ [Probe.initDeclarator n _])) decl = decl'
          have hkind : declKind "VariableDeclaration" decl' = declKind "VariableDeclaration" decl := by
            subst hset
            simp only [declKind, Json.field, Json.get?, Fields.get?_set]
            rfl
          have hdecl' : Fields.type? decl' = some "VariableDeclaration" := by
            subst hset
            rwa [Fields.type?_set (by decide)]
          have hnd' : (Fields.names decl').Nodup := by
            subst hset
            rwa [Fields.names_set_of_mem (Fields.mem_names_of_get? hv)]
          have hfield : Json.field "declarations" (.obj decl') =
              .arr (items ++ [initDeclarator n (names.map fun x => locals "declare" line [.named x])]) := by
            subst hset
            exact Json.field_of_get? (by rw [Fields.get?_set, if_pos rfl])
          rw [blockNames, blockNames, namesIn, namesIn, declarations_item hdecl' hnd', declarations_item hdecl hnd, hkind, hfield,
            Json.field_of_get? hv, collect_append, collect_singleton (by unfold initDeclarator; split <;> rfl),
            declarations_initDeclarator, List.filter_append, List.filter_cons,
            if_neg (by simp [Json.isReserved, Json.isInitName_initName])]
          exact congrArg _ (List.append_nil _)
        | _ => rw [onList, hv]
    | _ => rfl

end Counted

/-! ## Functions -/

section Functions

/-- The guard of a function declares nothing for the list that it stands in. -/
theorem blockNames_guarded (statements : List Json) (line name : Json) : blockNames (guarded statements line name) = [] :=
  blockNames_of_type (show Fields.type? _ = some "TryStatement" from rfl) (by decide)

/-- The guard of a function declares the variables of what is tried. -/
theorem declarations_guarded_below (statements : List Json) (line name : Json) :
    declarations.collect .below (guarded statements line name) = declarations.collect .below (.arr statements) := by
  have htype : (guarded statements line name).type? = some "TryStatement" := rfl
  have hhandler : declarations.collect .below (Probe.handler line name) = [] := rfl
  have hblock : ¬ ("block" = "loc" ∨ "block" = "range") := by decide
  have hclause : ¬ ("handler" = "loc" ∨ "handler" = "range") := by decide
  rw [guarded, collect_entered htype (by decide), List.flatMap_cons, List.flatMap_cons, List.flatMap_cons, List.flatMap_cons,
    List.flatMap_nil, List.append_nil, part_inert rfl, part_of_next hblock rfl, part_of_next hclause rfl, part_inert rfl,
    declarations_blockOf, hhandler, List.append_nil, List.append_nil]
  rfl

theorem namesIn_closed {kinds : DeclKind → Bool} {d : Depth} (statements : List Json) (endLine : Json) :
    namesIn kinds d (.arr (closed statements endLine)) = namesIn kinds d (.arr statements) := by
  unfold closed
  split
  · rfl
  · have hreturned : ∀ r ∈ [returned endLine], IsRecordStatement r := fun r hr =>
      List.mem_singleton.1 hr ▸ isRecordStatement_statement ..
    rw [namesIn_append, namesIn_records hreturned, List.append_nil]

/-- The directives in front of statements declare nothing. -/
theorem namesIn_directives {kinds : DeclKind → Bool} {d : Depth} {items : List Json}
    (h : ∀ s ∈ items.takeWhile isDirective, s.Proper ∧ s.isNode = true) : namesIn kinds d (.arr (items.takeWhile isDirective)) = [] :=
  namesIn_of_nil (collect_silent fun s hs =>
    declarations_directive (h s hs).1 (h s hs).2 (List.all_eq_true.1 List.all_takeWhile s hs))

variable {line endLine name : Json} {params items : List Json} (h : ∀ s ∈ items.takeWhile isDirective, s.Proper ∧ s.isNode = true)

include h

theorem namesIn_dropWhile {kinds : DeclKind → Bool} {d : Depth} :
    namesIn kinds d (.arr (items.dropWhile isDirective)) = namesIn kinds d (.arr items) := by
  have happend : namesIn kinds d (.arr (items.takeWhile isDirective ++ items.dropWhile isDirective)) = _ := namesIn_append _ _
  rw [List.takeWhile_append_dropWhile, namesIn_directives h, List.nil_append] at happend
  exact happend.symm

/-- The statements of a function declare nothing for the block of the function: they stand in the guard. -/
theorem blockNames_functionBody : blockNames (.arr (functionBody line endLine name params items)) = [] := by
  have hcalled : blockNames (.arr [called line name params]) = [] :=
    namesIn_records fun r hr => List.mem_singleton.1 hr ▸ isRecordStatement_statement ..
  rw [functionBody, ← List.singleton_append (l := [_]), blockNames, namesIn_append, namesIn_append]
  rw [blockNames] at hcalled
  rw [namesIn_directives h, hcalled, List.nil_append, List.nil_append]
  exact (blockNames_singleton rfl).trans (blockNames_guarded ..)

/-- The variables of a function stay its own. -/
theorem variableNames_functionBody : variableNames (.arr (functionBody line endLine name params items)) =
    variableNames (.arr items) := by
  have hcalled : variableNames (.arr [called line name params]) = [] :=
    namesIn_records fun r hr => List.mem_singleton.1 hr ▸ isRecordStatement_statement ..
  have hguarded (statements : List Json) :
      variableNames (.arr [guarded statements endLine name]) = variableNames (.arr statements) := by
    rw [variableNames, variableNames, namesIn, namesIn, collect_singleton rfl, declarations_guarded_below]
  rw [functionBody, ← List.singleton_append (l := [_]), variableNames, namesIn_append, namesIn_append]
  rw [variableNames] at hcalled
  rw [namesIn_directives h, hcalled, List.nil_append, List.nil_append, ← variableNames, hguarded, variableNames, namesIn_closed,
    namesIn_dropWhile h]
  rfl

end Functions

/-! ## Scopes that stay -/

section Scopes

variable {code : Option String} {classes : List Json} {up : Option Json} {type key : String} {name : Json}
  {fields made out : Fields Json} (hnode : RewrittenNode code classes up type name fields made out)

include hnode

/-- The initializer of an instrumented loop declares the names that it did. -/
theorem RewrittenNode.blockNames_init (htype : type = "ForStatement") :
    blockNames (Json.field "init" (.obj out)) = blockNames (Json.field "init" (.obj fields)) := by
  subst htype
  have hcompleted : Fields.get? "init" (completed "ForStatement" fields) = Fields.get? "init" fields := get?_completed_of_ne (by decide)
  cases hv : Fields.get? "init" fields with
  | none =>
    have ho : Fields.get? "init" out = none := by
      rw [Fields.get?_eq_none, hnode.names_completed, ← Fields.get?_eq_none, hcompleted, hv]
    rw [Json.field, Json.field, Json.get?, Json.get?, ho, hv]
  | some v =>
    obtain ⟨o, ho⟩ := Fields.exists_get?_of_names hnode.names_completed (hcompleted.trans hv)
    obtain ⟨w, hprepared, hw, hframe⟩ := hnode.exists_made (hcompleted.trans hv) ho
    have hrw : Rewrites code .visited _ _ (readyField "ForStatement" "init" v) w := hnode.field _ _ w hprepared hw
    rw [Json.field_of_get? ho, Json.field_of_get? hv, ScriptTrace.blockNames_init hframe hnode.proper hnode.type
      (hrw.type?_init (hcompleted.trans hv) rfl) (hnode.ne_arr (hcompleted.trans hv) hrw (by decide) (by decide))
      fun decl hdecl htype => (hdecl ▸ hrw).nodup_of_node htype]
    exact namesIn_eq (hrw.declarations_match (by decide) .item)

omit hnode in
/-- The woven statements of a block declare what the statements did. -/
theorem RewrittenNode.namesIn_weave {kinds : DeclKind → Bool} {d : Depth} {block bmade plain : Fields Json} {ss ts : List Json}
    (hblock : RewrittenNode code classes up "BlockStatement" name block bmade plain) (hss : Fields.get? "body" block = some (.arr ss))
    (hts : Fields.get? "body" plain = some (.arr (weave ss ts))) :
    namesIn kinds d (.arr (weave ss ts)) = namesIn kinds d (.arr ss) := by
  obtain ⟨o, ho, hmatch⟩ := hblock.declarations_child (by decide) (by rw [mode_block]; decide) hss
  cases hts.symm.trans ho
  exact namesIn_eq (hmatch d)

/-- The variables of an instrumented function are those it had. -/
theorem RewrittenNode.variableNames_body (hfunction : type ∈ functionTypes) :
    variableNames ((bodyBlock (Json.field "body" (.obj out))).field "body") =
      variableNames ((bodyBlock (Json.field "body" (.obj fields))).field "body") := by
  obtain ⟨body, block, bname, bmade, plain, ss, ts, line, endLine, fname, params, hbody, hready, hbnode, -, hss, hts, htake,
    hproper, ho⟩ :=
    hnode.exists_functionBody hfunction
  have htype : (Json.obj (Fields.set "body" (.arr (functionBody line endLine fname params (weave ss ts))) plain)).type? =
      some "BlockStatement" := (Fields.type?_set (by decide) _ _).trans hbnode.type?_out
  have hdirectives : ∀ s ∈ (weave ss ts).takeWhile isDirective, s.Proper ∧ s.isNode = true := fun s hs =>
    hproper s ((List.takeWhile_prefix isDirective).subset (htake ▸ hs))
  have hwoven : variableNames (.arr (weave ss ts)) = variableNames (.arr ss) := hbnode.namesIn_weave hss hts
  rw [Json.field_of_get? ho, Json.field_of_get? hbody, bodyBlock_of_block htype, hready,
    Json.field_of_get? (by rw [Fields.get?_set, if_pos rfl]), Json.field_of_get? hss, variableNames_functionBody hdirectives, hwoven]

/-- An instrumented node puts the scopes around its fields that it did. -/
theorem RewrittenNode.nodeScopes_eq : nodeScopes type out key = nodeScopes type fields key := by
  unfold nodeScopes
  extract_lets outField field
  have hlist {names names' : List String} (h : names = names') : [names] = [names'] := congrArg (fun names => [names]) h
  by_cases hprogram : type = "Program"
  · subst hprogram
    rw [if_pos rfl, if_pos rfl]
    exact hlist (hnode.namesIn_field (fun h => by cases h) rfl (fun _ => rfl) (by decide))
  rw [if_neg hprogram, if_neg hprogram]
  by_cases hblock : type = "BlockStatement"
  · subst hblock
    rw [if_pos rfl, if_pos rfl]
    exact hlist (hnode.namesIn_field (by rw [mode_block]; decide) rfl (fun _ => rfl) (by decide))
  rw [if_neg hblock, if_neg hblock]
  by_cases hswitch : type = "SwitchStatement"
  · subst hswitch
    rw [if_pos rfl, if_pos rfl]
    split
    · exact hlist (hnode.namesIn_field (fun h => by cases h) rfl (fun _ => rfl) (by decide))
    · rfl
  rw [if_neg hswitch, if_neg hswitch]
  by_cases hclause : type = "CatchClause"
  · subst hclause
    rw [if_pos rfl, if_pos rfl]
    exact hlist (hnode.namesIn_field (fun h => by cases h) rfl (fun _ => rfl) (by decide))
  rw [if_neg hclause, if_neg hclause]
  by_cases hcounted : type = "ForStatement"
  · subst hcounted
    rw [if_pos rfl, if_pos rfl]
    exact hlist (hnode.blockNames_init rfl)
  rw [if_neg hcounted, if_neg hcounted]
  by_cases heach : type ∈ ["ForInStatement", "ForOfStatement"]
  · rw [if_pos heach, if_pos heach]
    simp only [List.mem_cons, List.not_mem_nil, or_false] at heach
    rcases heach with rfl | rfl
    all_goals exact hlist (hnode.namesIn_field (fun h => by cases h) rfl (fun _ => rfl) (by decide))
  rw [if_neg heach, if_neg heach]
  by_cases hclass : type ∈ classTypes
  · rw [if_pos hclass, if_pos hclass]
    simp only [classTypes, List.mem_cons, List.not_mem_nil, or_false] at hclass
    rcases hclass with rfl | rfl
    all_goals exact hlist (congrArg patternNames (hnode.field_kept rfl (by decide)))
  rw [if_neg hclass, if_neg hclass]
  split
  · next hfunction =>
    have hvariables := hnode.variableNames_body hfunction.1
    have hpatterns : patternNames (outField "params") = patternNames (field "params") ∧
        patternNames (outField "id") = patternNames (field "id") := by
      have hmem := hfunction.1
      simp only [functionTypes, List.mem_cons, List.not_mem_nil, or_false] at hmem
      rcases hmem with rfl | rfl | rfl
      all_goals exact ⟨hnode.namesIn_field (fun h => by cases h) rfl (fun _ => rfl) (by decide),
        congrArg patternNames (hnode.field_kept rfl (by decide))⟩
    rw [hpatterns.1, hpatterns.2, hvariables]
  · rfl

/-- So the scopes around the fields of an instrumented node are those that were there, but for branches, which are blocks now. -/
theorem RewrittenNode.scopesAt_eq (hbranch : ¬ IsBranch type key) (scopes : List (List String)) :
    scopesAt scopes type out key = scopesAt scopes type fields key := by
  rw [scopesAt, scopesAt, branchScopes, branchScopes, if_neg hbranch, if_neg hbranch, hnode.nodeScopes_eq]

theorem RewrittenNode.scopesAt_branch {branch : Fields Json} (hblock : Fields.type? branch = some "BlockStatement")
    (ho : Fields.get? key out = some (.obj branch)) (scopes : List (List String)) :
    scopesAt scopes type out key = enter (nodeScopes type fields key) scopes := by
  have hbranch : enter (branchScopes type out key) (enter (nodeScopes type fields key) scopes) =
      enter (nodeScopes type fields key) scopes := by
    unfold branchScopes
    split
    · rw [Json.field_of_get? ho, blockNames_of_type hblock (by decide), enter_empty]
    · rfl
  rw [scopesAt, enter_append, hnode.nodeScopes_eq, hbranch]

end Scopes

section Places

variable {type key : String} {fields : Fields Json}

/-- The nodes that put scopes around their fields. -/
def scopeTypes : List String :=
  ["Program", "BlockStatement", "SwitchStatement", "CatchClause", "ForStatement", "IfStatement"] ++ loopTypes ++
    classTypes ++ functionTypes

theorem scopesAt_of_other (h : type ∉ scopeTypes) (scopes : List (List String)) : scopesAt scopes type fields key = scopes := by
  have hnone : ∀ t ∈ ["ForInStatement", "ForOfStatement"], t ∈ loopTypes := by decide
  simp only [scopeTypes, List.mem_append, List.mem_cons, List.not_mem_nil, or_false, not_or] at h
  obtain ⟨⟨⟨⟨hprogram, hblock, hswitch, hclause, hcounted, hif⟩, hloop⟩, hclass⟩, hfunction⟩ := h
  have heach : type ∉ ["ForInStatement", "ForOfStatement"] := fun hmem => hloop (hnone type hmem)
  have hbranch : ¬ IsBranch type key := by
    rintro (⟨h, -⟩ | ⟨h, -⟩)
    · exact hif h
    · exact (List.mem_cons.1 h).elim hcounted hloop
  rw [scopesAt, branchScopes, if_neg hbranch, nodeScopes, if_neg hprogram, if_neg hblock, if_neg hswitch, if_neg hclause,
    if_neg hcounted, if_neg heach, if_neg hclass, if_neg fun h => hfunction h.1]
  rfl

theorem scopesAt_block (scopes : List (List String)) :
    scopesAt scopes "BlockStatement" fields key = enter [blockNames (Json.field "body" (.obj fields))] scopes := by
  have hbranch : ¬ IsBranch "BlockStatement" key := by
    rintro (⟨h, -⟩ | ⟨h, -⟩)
    · exact absurd h (by decide)
    · exact absurd h (by decide)
  rw [scopesAt, branchScopes, if_neg hbranch]
  rfl

/-- A branch is read as a block. -/
theorem scopesAt_of_branch (hbranch : IsBranch type key) (scopes : List (List String)) : scopesAt scopes type fields key =
    enter [blockNames (Json.field key (.obj fields))] (enter (nodeScopes type fields key) scopes) := by
  rw [scopesAt, branchScopes, if_pos hbranch, enter_append]

end Places

end ScriptTrace
