import ScriptTrace.Proofs.Declarations
import ScriptTrace.Proofs.Functions

/-!
# Names are not declared twice

The statements of a function are moved into the block of its guard, and in a block functions are declared as classes are,
not as variables. So an instrumented program declares no name twice exactly when the program does not, with the bodies of
its functions read as blocks: a function that shares its name with a variable of the same body gets in the way, and so do
two functions of one name in strict code.

* `Scope`, `Scope.Legal` : the names declared in a scope, and whether none is declared twice;
* `scopesOf` : the scopes of a program, as written or with the bodies of functions read as blocks;
* `Rewrites.scopes_match` : the scopes of a value, and those of what it becomes;
* `instrument_legal` : the same of programs.
-/

namespace ScriptTrace

open Probe Rewriting Survey

/-- The names declared in a scope, which is at the top of a program or function or below. -/
structure Scope where
  strict : Bool
  top : Bool
  declared : List (DeclKind × String)
  deriving DecidableEq

/-- No name is declared twice, but for variables and plain functions where they may be. -/
def Scope.Legal (s : Scope) : Prop := s.declared.Pairwise (Compatible s.strict s.top)

instance (s : Scope) : Decidable s.Legal := inferInstanceAs (Decidable (List.Pairwise _ _))

namespace Rewriting

/-- Whether the directives in front of statements make their code strict. -/
def usesStrict (statements : Json) : Bool :=
  (statements.items.takeWhile isDirective).any fun s => (s.field "directive").string? == some "use strict"

/-- What is told of the place of a value. -/
inductive Role where
  | plain
  /-- It is a branch or the body of a loop, which is read as a block. -/
  | branch
  /-- It is the body of a function, with the names at its top. -/
  | body
  deriving DecidableEq

/-- Where a value stands among scopes. -/
structure Surroundings where
  strict : Bool
  role : Role
  /-- Whether the bodies of functions are read as blocks. -/
  moved : Bool

def IsBranch (type key : String) : Prop :=
  type = "IfStatement" ∧ key ∈ ["consequent", "alternate"] ∨ type ∈ "ForStatement" :: loopTypes ∧ key = "body"

instance (type key : String) : Decidable (IsBranch type key) := inferInstanceAs (Decidable (_ ∨ _))

/-- Whether a node makes the code in it strict. -/
def makesStrict (type : String) (fields : Fields Json) : Bool :=
  if type = "Program" then usesStrict (Json.field "body" (.obj fields))
  else if type ∈ functionTypes then usesStrict ((bodyBlock (Json.field "body" (.obj fields))).field "body")
  else classTypes.contains type

def Surroundings.inside (s : Surroundings) (type : String) (fields : Fields Json) (key : String) : Surroundings where
  strict := s.strict || makesStrict type fields
  role :=
    if IsBranch type key then .branch
    else if type ∈ functionTypes ∧ key = "body" ∧ s.moved = false then .body
    else .plain
  -- functions in the pattern of a declarator are not instrumented
  moved := s.moved && !(type == "VariableDeclarator" && key == "id")

/-- The scopes in a program. -/
def scopes : Survey Surroundings Scope where
  own s type fields :=
    (if s.role = .branch ∧ type ≠ "BlockStatement" then [⟨s.strict, false, declarations.collect .item (.obj fields)⟩] else []) ++
      if type = "Program" then
        [⟨s.strict || makesStrict type fields, true, declarations.collect .item (Json.field "body" (.obj fields))⟩]
      else if type = "BlockStatement" then
        [⟨s.strict, s.role == .body, declarations.collect .item (Json.field "body" (.obj fields))⟩]
      else if type = "SwitchStatement" then [⟨s.strict, false, declarations.collect .item (Json.field "cases" (.obj fields))⟩]
      else []
  next s type fields key := some (s.inside type fields key)

/-- The scopes of a program, as written or with the bodies of functions read as blocks. -/
def scopesOf (moved : Bool) (tree : Json) : List Scope := scopes.collect ⟨false, .plain, moved⟩ tree

/-- A scope as it is in an instrumented program, where it may have variables that carry probes. -/
def ScopeRewritten (s t : Scope) : Prop :=
  t.strict = s.strict ∧ t.top = s.top ∧ Matches (· = ·) CarriesProbes s.declared t.declared

end Rewriting

/-! ## Legal scopes -/

theorem Matches.forall_iff {α β : Type} {R : α → β → Prop} {E : β → Prop} {P : α → Prop} {Q : β → Prop} {as : List α} {bs : List β}
    (h : Matches R E as bs) (hpair : ∀ a ∈ as, ∀ b, R a b → (Q b ↔ P a)) (hextra : ∀ b, E b → Q b) :
    (∀ b ∈ bs, Q b) ↔ ∀ a ∈ as, P a := by
  induction h with
  | nil => simp
  | cons hab _ ih =>
    rw [List.forall_mem_cons, List.forall_mem_cons, hpair _ List.mem_cons_self _ hab,
      ih fun a ha => hpair a (List.mem_cons_of_mem _ ha)]
  | extra he _ ih =>
    rw [List.forall_mem_cons, ih hpair]
    exact and_iff_right (hextra _ he)

/-- What an item is matched with may be taken for an extra. -/
theorem Matches.drop {α β : Type} {R : α → β → Prop} {E : β → Prop} {a : α} {as : List α} {bs : List β}
    (h : Matches R E (a :: as) bs) (hextra : ∀ b, R a b → E b) : Matches R E as bs := by
  generalize hall : a :: as = all at h
  induction h with
  | nil => cases hall
  | cons hab hrest _ =>
    cases hall
    exact .extra (hextra _ hab) hrest
  | extra he _ ih => exact .extra he (ih hall)

theorem Matches.of_refl {α : Type} {R : α → α → Prop} {E : α → Prop} : ∀ {as : List α}, (∀ a ∈ as, R a a) → Matches R E as as
  | [], _ => .nil
  | _ :: _, h => .cons (h _ List.mem_cons_self) (of_refl fun a ha => h a (List.mem_cons_of_mem _ ha))

theorem Rewriting.ScopeRewritten.refl (s : Scope) : ScopeRewritten s s := ⟨rfl, rfl, .refl _⟩

/-- Variables that carry probes change nothing. -/
theorem Rewriting.ScopeRewritten.legal_iff {s t : Scope} (h : ScopeRewritten s t)
    (hnames : ∀ d ∈ s.declared, Json.isReserved d.2 = false) : t.Legal ↔ s.Legal := by
  obtain ⟨hstrict, htop, hdeclared⟩ := h
  rw [Scope.Legal, Scope.Legal, hstrict, htop]
  exact pairwise_compatible_iff hdeclared hnames

/-- A scope that declares variables only. -/
theorem Scope.legal_of_vars {s : Scope} (h : ∀ d ∈ s.declared, d.1 = .var) : s.Legal :=
  List.pairwise_of_forall_mem_list fun d hd e he _ => .inl (by rw [h d hd, h e he]; exact ⟨rfl, rfl⟩)

/-- The names in the scopes of a program are not reserved. -/
theorem scopes_unreserved {v : Json} {s : Surroundings} (h : v.Unreserved) :
    ∀ scope ∈ scopes.collect s v, ∀ d ∈ scope.declared, Json.isReserved d.2 = false := by
  refine forall_collect (I := fun _ => True) (Q := fun scope : Scope => ∀ d ∈ scope.declared, Json.isReserved d.2 = false)
    (fun _ _ _ _ _ _ _ => trivial) (fun s type fields _ _ hnames scope hscope => ?_) s v trivial h
  have hfield (key : String) : (Json.field key (.obj fields)).Unreserved := Json.Unreserved.field hnames key
  rcases List.mem_append.1 hscope with hscope | hscope
  · split at hscope
    · rw [List.mem_singleton.1 hscope]
      exact declarations_unreserved hnames
    · cases hscope
  · split at hscope
    · rw [List.mem_singleton.1 hscope]
      exact declarations_unreserved (hfield _)
    · split at hscope
      · rw [List.mem_singleton.1 hscope]
        exact declarations_unreserved (hfield _)
      · split at hscope
        · rw [List.mem_singleton.1 hscope]
          exact declarations_unreserved (hfield _)
        · cases hscope

/-! ## Surroundings -/

section Surroundings

variable {strict moved : Bool} {role : Role} {type key : String} {fields : Fields Json} {v : Json}

theorem scopes_part (hkey : ¬ (key = "loc" ∨ key = "range")) (s : Surroundings) :
    scopes.part s type fields key v = scopes.collect (s.inside type fields key) v := part_of_next hkey rfl v

theorem scopes_plain (strict : Bool) : scopes.Plain ⟨strict, .plain, false⟩ := by
  have hnext : ∀ type ∈ "CallExpression" :: "BlockStatement" :: "CatchClause" :: flatTypes, ∀ fields key,
      scopes.next ⟨strict, .plain, false⟩ type fields key = some ⟨strict, .plain, false⟩ := by
    intro type hmem fields key
    have hall : ∀ type ∈ "CallExpression" :: "BlockStatement" :: "CatchClause" :: flatTypes,
        type ∉ "Program" :: functionTypes ++ classTypes ∧ type ∉ "IfStatement" :: "ForStatement" :: loopTypes := by decide
    obtain ⟨hstrict, hbranch⟩ := hall type hmem
    simp only [List.cons_append, List.mem_cons, List.mem_append, not_or] at hstrict hbranch
    have hnot : ¬ IsBranch type key := by
      rintro (⟨h, -⟩ | ⟨h, -⟩)
      · exact hbranch.1 h
      · exact (List.mem_cons.1 h).elim hbranch.2.1 hbranch.2.2
    simp [scopes, Surroundings.inside, makesStrict, hstrict, hnot]
  exact {
    own := by
      intro type hmem fields
      have hall : ∀ type ∈ flatTypes, type ≠ "Program" ∧ type ≠ "BlockStatement" ∧ type ≠ "SwitchStatement" := by decide
      obtain ⟨hprogram, hblock, hswitch⟩ := hall type hmem
      simp [scopes, hprogram, hblock, hswitch]
    next := fun type hmem => hnext type (by
      rcases List.mem_cons.1 hmem with rfl | hmem
      · exact List.mem_cons_self
      · simp [hmem])
    quiet := fun _ _ _ => rfl
    records := fun _ _ _ _ => rfl
    clauses := fun _ => by simp [scopes]
    inside := fun type hmem => hnext type (by
      simp only [List.mem_cons, List.not_mem_nil, or_false] at hmem
      rcases hmem with rfl | rfl <;> simp) }

/-- Most nodes have no scopes of their own. -/
theorem scopes_own_eq_nil (h : type ∉ ["Program", "BlockStatement", "SwitchStatement"]) (hrole : role ≠ .branch) :
    scopes.own ⟨strict, role, moved⟩ type fields = [] := by
  simp only [List.mem_cons, List.not_mem_nil, or_false, not_or] at h
  simp [scopes, h, hrole]

/-- Most nodes leave what surrounds them as it is. -/
theorem inside_eq
    (h : type ∉ "Program" :: "IfStatement" :: "ForStatement" :: "VariableDeclarator" :: loopTypes ++ functionTypes ++ classTypes) :
    Surroundings.inside ⟨strict, role, moved⟩ type fields key = ⟨strict, .plain, moved⟩ := by
  simp only [List.cons_append, List.mem_cons, List.mem_append, not_or] at h
  obtain ⟨hprogram, hif, hfor, hdeclarator, ⟨hloop, hfunction⟩, hclass⟩ := h
  have hnot : ¬ IsBranch type key := by
    rintro (⟨h, -⟩ | ⟨h, -⟩)
    · exact hif h
    · exact (List.mem_cons.1 h).elim hfor hloop
  simp [Surroundings.inside, makesStrict, hprogram, hfunction, hclass, hnot, hdeclarator]

theorem scopes_own_block (block : Fields Json) : scopes.own ⟨strict, role, moved⟩ "BlockStatement" block =
    [⟨strict, role == .body, declarations.collect .item (Json.field "body" (.obj block))⟩] := by
  simp [scopes]

theorem scopes_next_block (block : Fields Json) :
    scopes.next ⟨strict, role, moved⟩ "BlockStatement" block "body" = some ⟨strict, .plain, moved⟩ :=
  congrArg some (inside_eq (by decide))

/-- The scopes of a block: its own, and those of its statements. -/
theorem scopes_block {block : Fields Json} (hproper : (Json.obj block).Proper)
    (htype : Fields.type? block = some "BlockStatement") : scopes.collect ⟨strict, role, moved⟩ (.obj block) =
      ⟨strict, role == .body, declarations.collect .item (Json.field "body" (.obj block))⟩ ::
        scopes.collect ⟨strict, .plain, moved⟩ (Json.field "body" (.obj block)) := by
  rw [collect_block hproper htype (scopes_next_block block), scopes_own_block]
  rfl

theorem scopes_blockOf (statements : List Json) : scopes.collect ⟨strict, role, moved⟩ (blockOf statements) =
    ⟨strict, role == .body, declarations.collect .item (.arr statements)⟩ ::
      scopes.collect ⟨strict, .plain, moved⟩ (.arr statements) := by
  have htype : Fields.type? (blockFields statements) = some "BlockStatement" := rfl
  rw [show blockOf statements = .obj (blockFields statements) from rfl, collect_entered htype (by decide), scopes_own_block]
  change _ :: (scopes.part _ _ (blockFields statements) "type" _ ++ (scopes.part _ _ (blockFields statements) "body" _ ++ [])) = _
  rw [part_inert rfl, part_of_next (by decide) (scopes_next_block _), List.nil_append, List.append_nil]
  rfl

/-- A branch is read as a block. -/
theorem scopes_asBlock (htype : Fields.type? fields = some type) :
    scopes.collect ⟨strict, .branch, moved⟩ (.obj fields) = scopes.collect ⟨strict, .plain, moved⟩ (asBlock (.obj fields)) := by
  by_cases hblock : type = "BlockStatement"
  · subst hblock
    rw [asBlock_of_block htype, collect_obj htype, collect_obj htype, scopes_own_block, scopes_own_block]
    rfl
  · have hnode : (Json.obj fields).isNode = true := Json.isNode_of_type? (j := .obj fields) htype
    have hown : scopes.own ⟨strict, .branch, moved⟩ type fields =
        ⟨strict, false, declarations.collect .item (.obj fields)⟩ :: scopes.own ⟨strict, .plain, moved⟩ type fields := by
      simp [scopes, hblock]
    have hparts (role : Role) : scopes.collect ⟨strict, role, moved⟩ (.obj fields) = scopes.own ⟨strict, role, moved⟩ type fields ++
        if type ∈ leafTypes then [] else fields.flatMap fun f => scopes.part ⟨strict, role, moved⟩ type fields f.1 f.2 :=
      collect_obj htype
    rw [asBlock_of_other htype hblock, scopes_blockOf, collect_singleton hnode, collect_singleton hnode, hparts .branch,
      hparts .plain, hown]
    rfl

/-- The made return around an expression has the scopes of the expression. -/
theorem scopes_returnOf (v : Json) : scopes.collect ⟨strict, .plain, moved⟩ (.arr [returnOf v]) =
    scopes.collect ⟨strict, .plain, moved⟩ v := by
  have htype : Fields.type? (returnFields v) = some "ReturnStatement" := rfl
  have hnext (key : String) : scopes.next ⟨strict, .plain, moved⟩ "ReturnStatement" (returnFields v) key =
      some ⟨strict, .plain, moved⟩ :=
    congrArg some (inside_eq (by decide))
  rw [collect_singleton rfl, show returnOf v = .obj (returnFields v) from rfl, collect_entered htype (by decide),
    scopes_own_eq_nil (by decide) (by decide)]
  change [] ++ (scopes.part _ _ (returnFields v) "type" _ ++ (scopes.part _ _ (returnFields v) "argument" _ ++
    (scopes.part _ _ (returnFields v) "loc" _ ++ []))) = _
  rw [part_inert rfl, part_of_next (by decide) (hnext _)]
  exact List.append_nil _

end Surroundings

/-! ## Directives -/

section Directives

variable {directive : Json} (hproper : directive.Proper) (hnode : directive.isNode = true) (h : isDirective directive = true)

include hproper hnode h

theorem exists_literalStatement : ∃ fields literal, directive = .obj fields ∧ Fields.type? fields = some "ExpressionStatement" ∧
    Fields.get? "expression" fields = some (.obj literal) ∧ Fields.type? literal = some "Literal" := by
  cases directive with
  | obj fields =>
    obtain ⟨type, htype⟩ := hproper.exists_type hnode
    obtain ⟨rfl, literal, hliteral, hltype⟩ := exists_literal hproper htype h
    exact ⟨fields, literal, rfl, htype, hliteral, hltype⟩
  | _ => cases hnode

/-- Directives declare nothing. -/
theorem declarations_directive {d : Depth} : declarations.collect d directive = [] := by
  obtain ⟨fields, literal, rfl, htype, -⟩ := exists_literalStatement hproper hnode h
  exact declarations_eq_nil htype (by decide)

/-- Directives contribute nothing. -/
theorem Survey.Flat.collect_directive {γ α : Type} {S : Survey γ α} {c : γ} (hflat : S.Flat c) : S.collect c directive = [] := by
  obtain ⟨fields, literal, rfl, htype, hliteral, hltype⟩ := exists_literalStatement hproper hnode h
  rw [collect_only "expression" htype (by decide) hproper.nodup fun k v hv hk => ?_, hflat.own _ (by decide),
    part_of_next (by decide) (hflat.next _ (by decide) _ _), Json.field_of_get? hliteral, collect_leaf hltype (by decide),
    hflat.own _ (by decide)]
  · rfl
  by_cases hposition : k = "loc" ∨ k = "range"
  · exact if_pos hposition
  · exact part_inert (inert_of_literal hproper htype (by simp) hv (not_or.1 hposition) fun _ => hk) k

end Directives

/-! ## Frames -/

section Frames

variable {strict : Bool} {role : Role} {code : Option String} {classes : List Json} {up : Option Json} {type key : String}
  {name : Json} {fields made out : Fields Json}

/-- A rewritten block whatever is put into its list. -/
theorem scopes_rewrittenBlock {block : Fields Json} (items : List Json)
    (hnode : RewrittenNode code classes up "BlockStatement" name block made out) :
    scopes.collect ⟨strict, role, false⟩ (.obj (Fields.set "body" (.arr items) out)) =
      ⟨strict, role == .body, declarations.collect .item (.arr items)⟩ :: scopes.collect ⟨strict, .plain, false⟩ (.arr items) := by
  rw [collect_rewrittenBlock items hnode (scopes_next_block _), scopes_own_block,
    Json.field_of_get? (by rw [Fields.get?_set, if_pos rfl])]
  rfl

/-- The body of a loop has the scopes of the block it was made from. -/
theorem scopes_loopBody {k : FrameKind} {block bmade plain : Fields Json} {bname w o : Json} {classes' : List Json}
    {up' : Option Json} (hframe : Rewriting.Frame code classes up type fields made k w o) (hbody : k ∈ [.same, .iteration, .counted])
    (hw : w = .obj plain) (hblock : RewrittenNode code classes' up' "BlockStatement" bname block bmade plain) :
    scopes.collect ⟨strict, .branch, false⟩ o = scopes.collect ⟨strict, .plain, false⟩ w := by
  obtain ⟨ss, ts, -, hitems, -⟩ := hblock.exists_weave "body" rfl
  generalize weave ss ts = items at hitems
  have hself : Fields.set "body" (.arr items) plain = plain := Fields.set_of_get? hitems
  have hplain (role : Role) : scopes.collect ⟨strict, role, false⟩ w =
      ⟨strict, role == .body, declarations.collect .item (.arr items)⟩ :: scopes.collect ⟨strict, .plain, false⟩ (.arr items) := by
    rw [hw, ← scopes_rewrittenBlock items hblock, hself]
  have hframed {f : List Json → List Json} (records : List Json) (hf : ∀ items, f items = records ++ items)
      (hrecords : ∀ r ∈ records, IsRecordStatement r) (hsilent : ∀ r ∈ records, scopes.collect ⟨strict, .plain, false⟩ r = []) :
      scopes.collect ⟨strict, .branch, false⟩ (onList "body" f w) = scopes.collect ⟨strict, .plain, false⟩ w := by
    rw [hplain, hw, onList_obj _ hitems, scopes_rewrittenBlock _ hblock, hf, collect_append, collect_append,
      declarations_records hrecords, collect_silent hsilent]
    rfl
  have hliterals (kind : String) (line : Json) (pairs : List (String × Json)) :
      scopes.collect ⟨strict, .plain, false⟩ (Probe.statement kind line (pairs.map fun p => (p.1, .literal p.2))) = [] :=
    (scopes_plain strict).collect_literals kind line pairs
  cases hframe with
  | same | uncounted => rw [hplain, hplain]; rfl
  | iteration line _ records hline hrecords =>
    refine hframed (_ :: records) (fun _ => rfl) (fun r hr => ?_) fun r hr => ?_
    · rcases List.mem_cons.1 hr with rfl | hr
      · exact isRecordStatement_statement ..
      · exact (isLocals_of_iteration hrecords r hr).isRecordStatement
    · rcases List.mem_cons.1 hr with rfl | hr
      · exact hliterals "loop" line [("loopType", .str (Visit.loopTag type))]
      · obtain ⟨kind, hkind, line, targets, htargets, rfl⟩ := exists_of_mem_iteration hrecords hr
        rw [localsStatement, (scopes_plain strict).collect_expressionStatement,
          (scopes_plain strict).collect_locals hkind line htargets]
  | counted line _ text =>
    refine hframed [_] (fun _ => rfl) (fun r hr => ?_) fun r hr => ?_
    · rw [List.mem_singleton.1 hr]
      exact isRecordStatement_statement ..
    · rw [List.mem_singleton.1 hr]
      exact hliterals "test" line [("expression", .str text), ("result", .bool true)]
  | _ => simp at hbody

/-- The guard of a function declares variables only, for the list that it stands in. -/
theorem declarations_guarded (statements : List Json) (line name : Json) :
    ∀ n ∈ declarations.collect .item (guarded statements line name), n.1 = .var :=
  declarations_of_type (show Fields.type? _ = some "TryStatement" from rfl) (by decide)

/-- The body of a function: what stood at its top stands in the block that is tried. -/
theorem scopes_functionBody (line endLine name : Json) (params : List Json) {ss items : List Json}
    (hdeclared : Matches (· = ·) CarriesProbes (declarations.collect .item (.arr ss)) (declarations.collect .item (.arr items)))
    (hscopes : Matches ScopeRewritten Scope.Legal (scopes.collect ⟨strict, .plain, true⟩ (.arr ss))
      (scopes.collect ⟨strict, .plain, false⟩ (.arr items)))
    (hdirectives : ∀ d ∈ items.takeWhile isDirective, declarations.collect .item d = [] ∧
      scopes.collect ⟨strict, .plain, false⟩ d = []) :
    Matches ScopeRewritten Scope.Legal
      (⟨strict, false, declarations.collect .item (.arr ss)⟩ :: scopes.collect ⟨strict, .plain, true⟩ (.arr ss))
      (⟨strict, true, declarations.collect .item (.arr (functionBody line endLine name params items))⟩ ::
        scopes.collect ⟨strict, .plain, false⟩ (.arr (functionBody line endLine name params items))) := by
  have hcalled : declarations.collect .item (called line name params) = [] := declarations_statement _
  have hsilent : declarations.collect .item (.arr (items.takeWhile isDirective)) = [] :=
    collect_silent fun d hd => (hdirectives d hd).1
  have hsilent' : scopes.collect ⟨strict, .plain, false⟩ (.arr (items.takeWhile isDirective)) = [] :=
    collect_silent fun d hd => (hdirectives d hd).2
  have htop : Scope.Legal ⟨strict, true, declarations.collect .item (.arr (functionBody line endLine name params items))⟩ := by
    refine Scope.legal_of_vars fun n hn => ?_
    rw [functionBody, collect_append, hsilent, List.nil_append, collect_arr, List.flatMap_cons, hcalled, ite_self, List.nil_append,
      ← collect_arr, collect_singleton rfl] at hn
    exact declarations_guarded _ _ _ n hn
  have hrest : declarations.collect .item (.arr (closed (items.dropWhile isDirective) endLine)) =
      declarations.collect .item (.arr items) := by
    have hclosed (statements : List Json) : declarations.collect .item (.arr (closed statements endLine)) =
        declarations.collect .item (.arr statements) := by
      unfold closed
      split
      · rfl
      · rw [collect_append, collect_singleton rfl, returned, Probe.statement, declarations_statement, List.append_nil]
    rw [hclosed, ← List.nil_append (declarations.collect _ _), ← hsilent, ← collect_append, List.takeWhile_append_dropWhile]
  have hbelow : Matches ScopeRewritten Scope.Legal (scopes.collect ⟨strict, .plain, true⟩ (.arr ss))
      (scopes.collect ⟨strict, .plain, false⟩ (.arr (items.dropWhile isDirective))) := by
    rwa [← List.takeWhile_append_dropWhile (p := isDirective) (l := items), collect_append, hsilent', List.nil_append] at hscopes
  have hhandler : scopes.collect ⟨strict, .plain, false⟩ (handler endLine name) = [⟨strict, false, []⟩] := by
    rw [(scopes_plain strict).collect_handler, scopes_own_block]
    rfl
  refine .extra htop ?_
  rw [(scopes_plain strict).collect_functionBody, hsilent', List.nil_append, (scopes_plain strict).collect_called, scopes_own_block,
    hhandler]
  refine .cons ⟨rfl, rfl, ?_⟩ ?_
  · rw [show Json.field "body" (.obj (blockFields (closed (items.dropWhile isDirective) endLine))) =
      .arr (closed (items.dropWhile isDirective) endLine) from rfl, hrest]
    exact hdeclared
  · rw [← List.append_nil (scopes.collect _ (.arr ss))]
    exact hbelow.append (.extra List.Pairwise.nil .nil)

end Frames

/-! ## Strict code -/

section Nodes

variable {strict : Bool} {code : Option String} {classes : List Json} {up : Option Json} {type key : String} {name : Json}
  {fields made out : Fields Json} (hnode : RewrittenNode code classes up type name fields made out)

theorem usesStrict_eq {items ss : List Json} (h : items.takeWhile isDirective = ss.takeWhile isDirective) :
    usesStrict (.arr items) = usesStrict (.arr ss) := by
  rw [usesStrict, usesStrict, Json.items, Json.items, h]

include hnode

/-- The list of statements of a node, and what becomes of it. -/
theorem RewrittenNode.exists_statements (key : String) (hkey : listKey type = some key) :
    ∃ ss ts, Fields.get? key fields = some (.arr ss) ∧
    Fields.get? key out = some (.arr (weave ss ts)) ∧ (weave ss ts).takeWhile isDirective = ss.takeWhile isDirective ∧
    ∀ s ∈ ss, s.Proper ∧ s.isNode = true := by
  obtain ⟨ss, ts, hss, hts, hstatements⟩ := hnode.exists_weave key hkey
  have hproper : ∀ s ∈ ss, s.Proper ∧ s.isNode = true := by
    obtain ⟨-, ss', hss', hnodes⟩ := exists_list key hnode.proper hnode.type hkey
    cases hss.symm.trans hss'
    exact fun s hs => ⟨(hnode.proper.field hss).item hs, hnodes s hs⟩
  exact ⟨ss, ts, hss, hts, takeWhile_weave hstatements hproper, hproper⟩

/-- The body of a function, as a block, and what becomes of it. -/
theorem RewrittenNode.exists_functionBody (hfunction : type ∈ functionTypes) :
    ∃ body block bname bmade plain ss ts line endLine fname params, Fields.get? "body" fields = some (.obj body) ∧
      bodyBlock (.obj body) = .obj block ∧
      RewrittenNode code classes (some (.obj fields)) "BlockStatement" bname block bmade plain ∧
      Fields.get? "body" made = some (.obj plain) ∧
      Fields.get? "body" block = some (.arr ss) ∧ Fields.get? "body" plain = some (.arr (weave ss ts)) ∧
      (weave ss ts).takeWhile isDirective = ss.takeWhile isDirective ∧ (∀ s ∈ ss, s.Proper ∧ s.isNode = true) ∧
      Fields.get? "body" out =
        some (.obj (Fields.set "body" (.arr (functionBody line endLine fname params (weave ss ts))) plain)) := by
  have hkind : frameKind type "body" = .function ∧ type ∉ classTypes := by
    simp only [functionTypes, List.mem_cons, List.not_mem_nil, or_false] at hfunction
    rcases hfunction with rfl | rfl | rfl <;> exact ⟨rfl, by decide⟩
  obtain ⟨hkind, hclass⟩ := hkind
  obtain ⟨body, hbody, -⟩ := exists_body hnode.proper hnode.type hfunction
  have hcompleted : Fields.get? "body" (completed type fields) = some (.obj body) :=
    (get?_completed_of_ne (by decide)).trans hbody
  obtain ⟨-, block, hready, hbtype⟩ := exists_block_of_body hnode.proper hnode.type (by rw [hkind]; simp) hcompleted
  obtain ⟨o, ho⟩ := Fields.exists_get?_of_names hnode.names_completed hcompleted
  obtain ⟨w, hprepared, hw, hframe⟩ := hnode.exists_made hcompleted ho
  have hrw := hnode.field _ _ _ hprepared hw
  rw [hready, mode_of_framed (by rw [hkind]; decide), classesAt, if_neg fun h => hclass h.1] at hrw
  rw [readyField_function hfunction] at hready
  obtain ⟨bname, bmade, plain, rfl, hbnode⟩ := hrw.exists_node hbtype
  obtain ⟨ss, ts, hss, hts, htake, hproper⟩ := hbnode.exists_statements "body" rfl
  rw [hkind] at hframe
  cases hframe with
  | function line endLine fname _ params =>
    rw [onList_obj _ hts] at ho
    exact ⟨body, block, bname, bmade, plain, ss, ts, line, endLine, fname, params, hbody, hready, hbnode, hw, hss, hts, htake,
      hproper, ho⟩

/-- The body of a rewritten function is a block, with the statements of the function behind its directives in the guard. -/
theorem RewrittenNode.exists_guardedBlock (hfunction : type ∈ functionTypes) :
    ∃ block ss ts line endLine fname params, Fields.get? "body" out = some (.obj block) ∧
      (Json.obj block).type? = some "BlockStatement" ∧
      Fields.get? "body" block = some (.arr (functionBody line endLine fname params (weave ss ts))) ∧
      (bodyBlock (Json.field "body" (.obj fields))).field "body" = .arr ss ∧
      (weave ss ts).takeWhile isDirective = ss.takeWhile isDirective ∧ ∀ s ∈ ss, s.Proper ∧ s.isNode = true := by
  obtain ⟨body, block, bname, bmade, plain, ss, ts, line, endLine, fname, params, hbody, hready, hbnode, -, hss, -, htake, hproper, ho⟩ :=
    hnode.exists_functionBody hfunction
  refine ⟨_, ss, ts, line, endLine, fname, params, ho, (Fields.type?_set (by decide) _ _).trans hbnode.type?_out,
    by rw [Fields.get?_set, if_pos rfl], ?_, htake, hproper⟩
  rw [Json.field_of_get? hbody, hready, Json.field_of_get? hss]

/-- Code stays strict, and other code does not become strict. -/
theorem RewrittenNode.makesStrict_eq : makesStrict type out = makesStrict type fields := by
  unfold makesStrict
  split
  · next h =>
    subst h
    obtain ⟨ss, ts, hss, hts, htake, -⟩ := hnode.exists_statements "body" rfl
    rw [Json.field_of_get? hss, Json.field_of_get? hts, usesStrict_eq htake]
  · split
    · next hfunction =>
      obtain ⟨block, ss, ts, line, endLine, fname, params, ho, htype, hitems, hss, htake, -⟩ := hnode.exists_guardedBlock hfunction
      have htop : (functionBody line endLine fname params (weave ss ts)).takeWhile isDirective = ss.takeWhile isDirective := by
        rw [functionBody, List.takeWhile_append_of_pos (List.all_eq_true.1 List.all_takeWhile), htake,
          List.takeWhile_cons_of_neg (by rintro ⟨⟩), List.append_nil]
      rw [Json.field_of_get? ho, bodyBlock_of_block htype, Json.field_of_get? hitems, hss, usesStrict_eq htop]
    · rfl

end Nodes

/-! ## Rewritten nodes -/

/-- What is shown by induction of a value and what it becomes: the scopes match, and so do those in the list of a block. -/
def ScopesMatch (m : Mode) (v w : Json) : Prop :=
  m ≠ .kept → ∀ strict, Matches ScopeRewritten Scope.Legal (scopes.collect ⟨strict, .plain, true⟩ v)
      (scopes.collect ⟨strict, .plain, false⟩ w) ∧
    (v.type? = some "BlockStatement" → Matches ScopeRewritten Scope.Legal
      (scopes.collect ⟨strict, .plain, true⟩ (v.field "body")) (scopes.collect ⟨strict, .plain, false⟩ (w.field "body")))

section Kept

variable {strict moved : Bool} {type key : String} {fields : Fields Json}

/-- Branches and bodies are visited. -/
theorem mode_of_ready (h : IsBranch type key ∨ type ∈ functionTypes ∧ key = "body") : mode type fields key = .visited := by
  have hbranch : ∀ t ∈ "ForStatement" :: loopTypes ++ functionTypes, isVisited t "body" = true ∧
      (t, "body") ∉ [("Program", "body"), ("BlockStatement", "body"), ("SwitchCase", "consequent")] := by decide
  have hif : ∀ k ∈ ["consequent", "alternate"], isVisited "IfStatement" k = true := by decide
  rcases h with (⟨rfl, hk⟩ | ⟨ht, rfl⟩) | ⟨ht, rfl⟩
  · rw [mode_of_isVisited (hif key hk), if_neg (by simp)]
  · obtain ⟨hvisited, hlist⟩ := hbranch type (List.mem_append.2 (.inl ht))
    rw [mode_of_isVisited hvisited, if_neg hlist]
  · obtain ⟨hvisited, hlist⟩ := hbranch type (List.mem_append.2 (.inr ht))
    rw [mode_of_isVisited hvisited, if_neg hlist]

theorem ready_of_framed (h : frameKind type key ∈ [.iteration, .counted, .function]) :
    IsBranch type key ∨ type ∈ functionTypes ∧ key = "body" := by
  have hall : ∀ g ∈ frameTable, ∀ e ∈ g.2, e.2 ∈ [FrameKind.iteration, .counted, .function] → ∀ t ∈ g.1,
      IsBranch t e.1 ∨ t ∈ functionTypes ∧ e.1 = "body" := by decide
  obtain ⟨g, hg, hmem, hentry⟩ := exists_of_frameKind rfl fun hsame => absurd (hsame ▸ h) (by decide)
  exact hall g hg _ hentry h type hmem

theorem not_isBranch_of_function (h : type ∈ functionTypes) : ¬ IsBranch type "body" := by
  have hall : ∀ t ∈ functionTypes, t ∉ "ForStatement" :: loopTypes := by decide
  rintro (⟨-, hkey⟩ | ⟨hloop, -⟩)
  · simp at hkey
  · exact hall type h hloop

/-- Other fields are ready as they are. -/
theorem readyField_of_other (h : ¬ (IsBranch type key ∨ type ∈ functionTypes ∧ key = "body")) (v : Json) :
    readyField type key v = v := by
  rw [not_or] at h
  rw [readyField, if_neg fun hif => h.1 (.inl hif), if_neg fun hloop => h.1 (.inr hloop), if_neg h.2]

/-- A field that is kept is neither made ready nor framed. -/
theorem eq_of_kept {code : Option String} {classes classes' : List Json} {up up' : Option Json} {made : Fields Json} {v w o : Json}
    (hmode : mode type fields key = .kept) (hrw : Rewrites code (mode type fields key) classes' up' (readyField type key v) w)
    (hframe : Rewriting.Frame code classes up type fields made (frameKind type key) w o) :
    ¬ (IsBranch type key ∨ type ∈ functionTypes ∧ key = "body") ∧ o = v := by
  have hother : ¬ (IsBranch type key ∨ type ∈ functionTypes ∧ key = "body") := fun h => by
    rw [mode_of_ready h] at hmode
    cases hmode
  have hsame : frameKind type key = .same := by
    by_contra h
    rw [mode_of_framed h] at hmode
    cases hmode
  rw [hsame, Rewriting.Frame.same_iff] at hframe
  rw [hmode, readyField_of_other hother] at hrw
  refine ⟨hother, ?_⟩
  cases hrw
  exact hframe

/-- In other fields only the strictness of the code changes. -/
theorem inside_of_other (h : ¬ (IsBranch type key ∨ type ∈ functionTypes ∧ key = "body")) :
    Surroundings.inside ⟨strict, .plain, moved⟩ type fields key =
      ⟨strict || makesStrict type fields, .plain, moved && !(type == "VariableDeclarator" && key == "id")⟩ := by
  rw [not_or] at h
  rw [Surroundings.inside, if_neg h.1, if_neg fun hbody => h.2 ⟨hbody.1, hbody.2.1⟩]

end Kept

section Fields

variable {strict : Bool} {code : Option String} {classes : List Json} {up : Option Json} {type key : String} {name : Json}
  {fields made out : Fields Json} (hnode : RewrittenNode code classes up type name fields made out)

include hnode

/-- A field that is kept has the scopes it had. -/
theorem RewrittenNode.scopes_kept {v o w : Json} (hv : Fields.get? key (completed type fields) = some v)
    (hmode : mode type fields key = .kept)
    (hrw : Rewrites code (mode type fields key) (classesAt classes type key name) (some (.obj fields)) (readyField type key v) w)
    (hframe : Rewriting.Frame code classes up type fields made (frameKind type key) w o)
    (hposition : ¬ (key = "loc" ∨ key = "range")) :
    Matches ScopeRewritten Scope.Legal (scopes.part ⟨strict, .plain, true⟩ type fields key v)
      (scopes.part ⟨strict, .plain, false⟩ type out key o) := by
  obtain ⟨hother, rfl⟩ := eq_of_kept hmode hrw hframe
  rw [scopes_part hposition, scopes_part hposition, inside_of_other hother, inside_of_other hother, hnode.makesStrict_eq]
  by_cases hid : type = "VariableDeclarator" ∧ key = "id"
  · rw [hid.1, hid.2]
    exact .of_refl fun _ _ => .refl _
  have hnothing (s : Bool) (moved : Bool) : scopes.collect ⟨s, .plain, moved⟩ o = [] := by
    have hall : ∀ t ∈ leafTypes, t ∉ ["Program", "BlockStatement", "SwitchStatement"] := by decide
    exact collect_kept (fun t ht leaf => scopes_own_eq_nil (hall t ht) (by decide)) hnode.proper hnode.type hv hmode hposition hid
  rw [hnothing, hnothing]
  exact .nil

/-- The body of a function that is instrumented. -/
theorem RewrittenNode.scopes_function (hfunction : type ∈ functionTypes)
    (ih : ∀ key v w, Fields.get? key (prepared type fields) = some v → Fields.get? key made = some w →
      ScopesMatch (mode type fields key) v w) {v o : Json} (hv : Fields.get? "body" (completed type fields) = some v)
    (ho : Fields.get? "body" out = some o) :
    Matches ScopeRewritten Scope.Legal (scopes.part ⟨strict, .plain, true⟩ type fields "body" v)
      (scopes.part ⟨strict, .plain, false⟩ type out "body" o) := by
  obtain ⟨body, block, bname, bmade, plain, ss, ts, line, endLine, fname, params, hbody, hready, hbnode, hmade, hss, hts, htake,
    hproper, hout⟩ := hnode.exists_functionBody hfunction
  cases ho.symm.trans hout
  rw [get?_completed_of_ne (by decide), hbody] at hv
  cases hv
  have hprepared : Fields.get? "body" (prepared type fields) = some (.obj block) := by
    rw [get?_prepared_eq, get?_completed_of_ne (by decide), hbody, Option.map_some, readyField_function hfunction, hready]
  have hbranch := not_isBranch_of_function hfunction
  have hin : Surroundings.inside ⟨strict, .plain, true⟩ type fields "body" = ⟨strict || makesStrict type fields, .plain, true⟩ := by
    simp [Surroundings.inside, hbranch]
  have hin' : Surroundings.inside ⟨strict, .plain, false⟩ type out "body" = ⟨strict || makesStrict type fields, .body, false⟩ := by
    simp [Surroundings.inside, hbranch, hfunction, hnode.makesStrict_eq]
  rw [scopes_part (by decide), scopes_part (by decide), hin, hin', scopes_rewrittenBlock _ hbnode]
  generalize (strict || makesStrict type fields) = strict
  have hscopes : Matches ScopeRewritten Scope.Legal (scopes.collect ⟨strict, .plain, true⟩ (.arr ss))
      (scopes.collect ⟨strict, .plain, false⟩ (.arr (weave ss ts))) := by
    have hbelow := (ih "body" _ _ hprepared hmade (by rw [mode_of_ready (.inr ⟨hfunction, rfl⟩)]; decide) strict).2 hbnode.type
    rwa [Json.field_of_get? hss, Json.field_of_get? hts] at hbelow
  have hdeclared : Matches (· = ·) CarriesProbes (declarations.collect .item (.arr ss))
      (declarations.collect .item (.arr (weave ss ts))) := by
    obtain ⟨o, ho, hmatch⟩ := hbnode.declarations_child (by decide) (by rw [mode_block]; decide) hss
    cases hts.symm.trans ho
    exact hmatch .item
  have hdirectives : ∀ d ∈ (weave ss ts).takeWhile isDirective, declarations.collect .item d = [] ∧
      scopes.collect ⟨strict, .plain, false⟩ d = [] := by
    intro d hd
    rw [htake] at hd
    obtain ⟨hdproper, hdnode⟩ := hproper d ((List.takeWhile_prefix isDirective).subset hd)
    have hdirective := List.all_eq_true.1 List.all_takeWhile d hd
    exact ⟨declarations_directive hdproper hdnode hdirective, (scopes_plain strict).collect_directive hdproper hdnode hdirective⟩
  have hbodies := scopes_functionBody line endLine fname params hdeclared hscopes hdirectives
  by_cases hblock : (Json.obj body).type? = some "BlockStatement"
  · rw [bodyBlock_of_block hblock] at hready
    cases hready
    rw [scopes_block hbnode.proper hbnode.type, Json.field_of_get? hss]
    exact hbodies
  · -- an expression is returned from a block that declares nothing
    rw [bodyBlock_of_other hblock] at hready
    obtain rfl : blockFields [returnOf (.obj body)] = block := Json.obj.inj hready
    obtain rfl : [returnOf (.obj body)] = ss := Json.arr.inj (Option.some.inj hss)
    have hnothing : declarations.collect .item (.arr [returnOf (.obj body)]) = [] := by
      have htype : (returnOf (.obj body)).type? = some "ReturnStatement" := rfl
      rw [collect_singleton rfl]
      exact declarations_eq_nil htype (by decide)
    rw [scopes_returnOf, hnothing] at hbodies
    exact hbodies.drop fun b hb => (hb.legal_iff (by simp)).2 .nil

/-- A branch, or the body of a loop. -/
theorem RewrittenNode.scopes_branch (hbranch : IsBranch type key)
    (ih : ∀ key v w, Fields.get? key (prepared type fields) = some v → Fields.get? key made = some w →
      ScopesMatch (mode type fields key) v w) {v o : Json} (hv : Fields.get? key (completed type fields) = some v)
    (ho : Fields.get? key out = some o) (hposition : ¬ (key = "loc" ∨ key = "range")) :
    Matches ScopeRewritten Scope.Legal (scopes.part ⟨strict, .plain, true⟩ type fields key v)
      (scopes.part ⟨strict, .plain, false⟩ type out key o) := by
  obtain ⟨w, hprepared, hw, hframe⟩ := hnode.exists_made hv ho
  have hih := ih key _ w hprepared hw
  have hrw := hnode.field key _ w hprepared hw
  rw [mode_of_ready (.inl hbranch)] at hih hrw
  rw [readyField_statement hbranch] at hih hrw
  have hdeclarator : type ≠ "VariableDeclarator" := by
    rintro rfl
    revert hbranch
    simp [IsBranch, loopTypes]
  have hin (moved : Bool) (node : Fields Json) : Surroundings.inside ⟨strict, .plain, moved⟩ type node key =
      ⟨strict || makesStrict type node, .branch, moved⟩ := by
    simp [Surroundings.inside, hbranch, hdeclarator]
  rw [scopes_part hposition, scopes_part hposition, hin, hin, hnode.makesStrict_eq]
  generalize (strict || makesStrict type fields) = strict
  obtain ⟨hkind, ⟨rfl, hsame⟩ | ⟨branch, btype, rfl, hbtype⟩⟩ := exists_branch hnode.proper hnode.type hbranch hv
  · rw [hsame, Rewriting.Frame.same_iff] at hframe
    obtain rfl : w = .null := by
      cases hrw
      rfl
    rw [hframe]
    exact .nil
  · obtain ⟨block, hblock, hblocktype⟩ := exists_asBlock hbtype
    rw [scopes_asBlock hbtype]
    rw [hblock] at hih hrw ⊢
    obtain ⟨bname, bmade, plain, hplain, hbnode⟩ := hrw.exists_node hblocktype
    rw [scopes_loopBody hframe hkind hplain hbnode]
    exact (hih (by decide) strict).1

/-- Each field of a rewritten node has the scopes it had. -/
theorem RewrittenNode.scopes_field (ih : ∀ key v w, Fields.get? key (prepared type fields) = some v →
      Fields.get? key made = some w → ScopesMatch (mode type fields key) v w) {v o : Json}
    (hv : Fields.get? key (completed type fields) = some v) (ho : Fields.get? key out = some o) :
    Matches ScopeRewritten Scope.Legal (scopes.part ⟨strict, .plain, true⟩ type fields key v)
      (scopes.part ⟨strict, .plain, false⟩ type out key o) := by
  by_cases hposition : key = "loc" ∨ key = "range"
  · rw [part, part, if_pos hposition, if_pos hposition]
    exact .nil
  obtain ⟨w, hprepared, hw, hframe⟩ := hnode.exists_made hv ho
  have hrw := hnode.field key _ w hprepared hw
  by_cases hkept : mode type fields key = .kept
  · exact hnode.scopes_kept hv hkept hrw hframe hposition
  by_cases hbranch : IsBranch type key
  · exact hnode.scopes_branch hbranch ih hv ho hposition
  by_cases hfunction : type ∈ functionTypes ∧ key = "body"
  · obtain ⟨hfunction, rfl⟩ := hfunction
    exact hnode.scopes_function hfunction ih hv ho
  have hother : ¬ (IsBranch type key ∨ type ∈ functionTypes ∧ key = "body") := not_or.2 ⟨hbranch, hfunction⟩
  have hdeclarator : ¬ (type = "VariableDeclarator" ∧ key = "id") := by
    rintro ⟨rfl, rfl⟩
    exact hkept rfl
  have hmoved : (type == "VariableDeclarator" && key == "id") = false := by simpa using hdeclarator
  have hih := ih key _ w hprepared hw hkept (strict || makesStrict type fields)
  rw [readyField_of_other hother] at hih
  rw [scopes_part hposition, scopes_part hposition, inside_of_other hother, inside_of_other hother, hnode.makesStrict_eq, hmoved,
    Bool.not_false, Bool.and_true, Bool.and_true]
  generalize (strict || makesStrict type fields) = strict at hih ⊢
  have hmembers (key : String) (callee : Fields Json) : Surroundings.inside ⟨strict, .plain, true⟩ "MemberExpression" callee key =
      ⟨strict, .plain, true⟩ := inside_eq (by decide)
  refine (scopes_plain strict).matches_framed (fun _ => scopes_own_eq_nil (by decide) (by decide))
    (fun _ => scopes_own_eq_nil (by decide) (by decide)) (fun callee key c' hnext leaf => ?_) hnode
    (fun h => hother (ready_of_framed h)) hv hrw hframe hih.1
  obtain rfl : ⟨strict, .plain, true⟩ = c' := (hmembers key callee).symm.trans (Option.some.inj hnext)
  exact scopes_own_eq_nil (by decide) (by decide)

/-- A rewritten node has the scopes of its own that it had. -/
theorem RewrittenNode.scopes_own : Matches ScopeRewritten Scope.Legal (scopes.own ⟨strict, .plain, true⟩ type fields)
    (scopes.own ⟨strict, .plain, false⟩ type out) := by
  by_cases hlist : type ∈ ["Program", "BlockStatement", "SwitchStatement"]
  · have hchild {key : String} (hun : Unframed type) (hmode : mode type fields key ≠ .kept) {items : List Json}
        (hv : Fields.get? key fields = some (.arr items)) : Matches (· = ·) CarriesProbes
          (declarations.collect .item (Json.field key (.obj fields))) (declarations.collect .item (Json.field key (.obj out))) := by
      obtain ⟨o, ho, hmatch⟩ := hnode.declarations_child hun hmode hv
      rw [Json.field_of_get? hv, Json.field_of_get? ho]
      exact hmatch .item
    have htype := hnode.type
    simp only [List.mem_cons, List.not_mem_nil, or_false] at hlist
    rcases hlist with rfl | rfl | rfl
    · obtain ⟨items, hitems, -⟩ := Json.fits_list (hnode.proper.fits "body" htype rfl rfl)
      have hmatch := hchild (by decide) (fun h => by cases h) hitems
      have hown (moved : Bool) (node : Fields Json) : scopes.own ⟨strict, .plain, moved⟩ "Program" node =
          [⟨strict || makesStrict "Program" node, true, declarations.collect .item (Json.field "body" (.obj node))⟩] := by
        simp [scopes]
      rw [hown, hown, hnode.makesStrict_eq]
      exact .cons ⟨rfl, rfl, hmatch⟩ .nil
    · obtain ⟨items, hitems, -⟩ := Json.fits_list (hnode.proper.fits "body" htype rfl rfl)
      have hmatch := hchild (by decide) (by rw [mode_block]; decide) hitems
      rw [scopes_own_block, scopes_own_block]
      exact .cons ⟨rfl, rfl, hmatch⟩ .nil
    · obtain ⟨items, hitems, -⟩ := Json.fits_list (hnode.proper.fits "cases" htype rfl rfl)
      have hmatch := hchild (by decide) (fun h => by cases h) hitems
      have hown (moved : Bool) (node : Fields Json) : scopes.own ⟨strict, .plain, moved⟩ "SwitchStatement" node =
          [⟨strict, false, declarations.collect .item (Json.field "cases" (.obj node))⟩] := by
        simp [scopes]
      rw [hown, hown]
      exact .cons ⟨rfl, rfl, hmatch⟩ .nil
  · rw [scopes_own_eq_nil hlist (by decide), scopes_own_eq_nil hlist (by decide)]
    exact .nil

end Fields

section Values

variable {code : Option String} {m : Mode} {classes : List Json} {up : Option Json}

/-- The scopes of a value, with the bodies of functions read as blocks, match those of what it becomes. -/
theorem Rewrites.scopes_match {v w : Json} (h : Rewrites code m classes up v w) : ScopesMatch m v w :=
  matched_of_rewrites (fun strict => (scopes_plain strict).collect_woven fun _ => scopes_own_eq_nil (by decide) (by decide))
    (fun hnode ih _ => ⟨hnode.scopes_own, fun _ _ _ => hnode.scopes_field ih⟩) h

end Values

/-! ## The bodies of functions as blocks -/

/-- The names of a scope, declared in a block. -/
def Scope.asBlock (s : Scope) : Scope := { s with top := false }

/-- A scope, or the scope as a block. -/
def Scope.Moved (s t : Scope) : Prop := t = s ∨ t = s.asBlock

/-- Surroundings with the bodies of functions read as they are, and surroundings with some of them read as blocks. -/
def Rewriting.Surroundings.Moved (c d : Surroundings) : Prop :=
  d.strict = c.strict ∧ c.moved = false ∧ (d.role = c.role ∨ c.role = .body ∧ d.role = .plain)

theorem Rewriting.Surroundings.Moved.inside {c d : Surroundings} (h : c.Moved d) (type : String) (fields : Fields Json) (key : String) :
    (c.inside type fields key).Moved (d.inside type fields key) := by
  obtain ⟨strict, role, moved⟩ := c
  obtain ⟨strict', role', moved'⟩ := d
  obtain ⟨rfl, rfl, -⟩ := h
  refine ⟨rfl, rfl, ?_⟩
  unfold Surroundings.inside
  by_cases hbranch : IsBranch type key
  · rw [if_pos hbranch, if_pos hbranch]
    exact .inl rfl
  · rw [if_neg hbranch, if_neg hbranch]
    by_cases hbody : type ∈ functionTypes ∧ key = "body"
    · cases moved'
      · exact .inl rfl
      · exact .inr ⟨if_pos ⟨hbody.1, hbody.2, rfl⟩, if_neg fun hall => Bool.noConfusion hall.2.2⟩
    · exact .inl ((if_neg fun hall => hbody ⟨hall.1, hall.2.1⟩).trans (if_neg fun hall => hbody ⟨hall.1, hall.2.1⟩).symm)

/-- A node has the scopes of its own, one of which may be the body of a function. -/
theorem Rewriting.Surroundings.Moved.own {c d : Surroundings} (h : c.Moved d) (type : String) (fields : Fields Json) :
    List.Forall₂ Scope.Moved (scopes.own c type fields) (scopes.own d type fields) := by
  obtain ⟨strict, role, moved⟩ := c
  obtain ⟨strict', role', moved'⟩ := d
  obtain ⟨rfl, -, rfl | ⟨rfl, rfl⟩⟩ := h
  · exact List.forall₂_same.2 fun _ _ => .inl rfl
  · by_cases hblock : type = "BlockStatement"
    · subst hblock
      rw [scopes_own_block, scopes_own_block]
      exact .cons (.inr rfl) .nil
    · have hown : scopes.own ⟨strict', .body, moved⟩ type fields = scopes.own ⟨strict', .plain, moved'⟩ type fields := by
        simp [scopes, hblock]
      rw [hown]
      exact List.forall₂_same.2 fun _ _ => .inl rfl

/-- With the bodies of functions read as blocks, a program has the scopes it has, some of them as blocks. Its first scope
is its own, which is left as it is. -/
theorem scopesOf_moved {tree : Json} (h : tree.type? = some "Program") : ∃ own below below',
    scopesOf false tree = own :: below ∧ scopesOf true tree = own :: below' ∧ List.Forall₂ Scope.Moved below below' := by
  obtain ⟨fields, rfl, htype⟩ : ∃ fields, tree = .obj fields ∧ Fields.type? fields = some "Program" := by
    cases tree with
    | obj fields => exact ⟨fields, rfl, h⟩
    | _ => cases h
  have hall : List.Forall₂ Scope.Moved (scopesOf false (.obj fields)) (scopesOf true (.obj fields)) :=
    forall₂_collect (C := Surroundings.Moved) (fun _ _ type fields key hc => .some (hc.inside type fields key))
      (fun _ _ type fields hc => hc.own type fields) _ _ _ ⟨rfl, rfl, .inl rfl⟩
  have hown (moved : Bool) : ∃ below, scopesOf moved (.obj fields) =
      ⟨false || makesStrict "Program" fields, true, declarations.collect .item (Json.field "body" (.obj fields))⟩ :: below := by
    rw [scopesOf, collect_entered htype (by decide)]
    exact ⟨_, rfl⟩
  obtain ⟨below, hbelow⟩ := hown false
  obtain ⟨below', hbelow'⟩ := hown true
  refine ⟨_, below, below', hbelow, hbelow', ?_⟩
  rw [hbelow, hbelow'] at hall
  exact (List.forall₂_cons.1 hall).2

theorem Scope.legal_of_moved {ss ts : List Scope} (h : List.Forall₂ Scope.Moved ss ts) (hlegal : ∀ s ∈ ss, s.Legal)
    (hblocks : ∀ s ∈ ss, s.asBlock.Legal) : ∀ t ∈ ts, t.Legal := by
  induction h with
  | nil => exact hlegal
  | cons hst _ ih =>
    rw [List.forall_mem_cons] at *
    refine ⟨?_, ih hlegal.2 hblocks.2⟩
    obtain rfl | rfl := hst
    · exact hlegal.1
    · exact hblocks.1

/-! ## Programs -/

/-- An instrumented program declares no name twice exactly when the program does not, with the bodies of its functions
read as blocks. So it declares none twice when the program declares none twice and no function at the top of another has a
name that a block would not let it have. -/
theorem instrument_legal {tree out : Json} {code : Option String} (h : tree.WellFormed) (hnames : tree.Unreserved)
    (hrun : instrument tree code = .ok out) :
    ((∀ s ∈ scopesOf false out, s.Legal) ↔ ∀ s ∈ scopesOf true tree, s.Legal) ∧
      ((∀ s ∈ scopesOf false tree, s.Legal) → (∀ s ∈ (scopesOf false tree).tail, s.asBlock.Legal) →
        ∀ s ∈ scopesOf false out, s.Legal) := by
  have hiff : (∀ s ∈ scopesOf false out, s.Legal) ↔ ∀ s ∈ scopesOf true tree, s.Legal :=
    ((instrument_rewrites h hrun).scopes_match (by decide) false).1.forall_iff
      (fun _ hs _ ht => ht.legal_iff (scopes_unreserved hnames _ hs)) fun _ ht => ht
  refine ⟨hiff, fun hlegal hblocks => hiff.2 ?_⟩
  obtain ⟨own, below, below', hplain, hmoved, hall⟩ := scopesOf_moved h.1
  rw [hplain] at hlegal hblocks
  rw [hmoved]
  rw [List.forall_mem_cons] at hlegal ⊢
  exact ⟨hlegal.1, Scope.legal_of_moved hall hlegal.2 hblocks⟩

theorem instrument_legal_echo : echoProgram.WellFormed ∧ echoProgram.Unreserved ∧
    ∃ out, instrument echoProgram none = .ok out ∧ ∀ s ∈ scopesOf false out, s.Legal := by
  have hwell : echoProgram.WellFormed := by decide +kernel
  have hnames : echoProgram.Unreserved := by decide +kernel
  have hok : (instrument echoProgram none).isOk = true := by decide +kernel
  have hlegal : ∀ s ∈ scopesOf false echoProgram, s.Legal := by decide +kernel
  have hblocks : ∀ s ∈ (scopesOf false echoProgram).tail, s.asBlock.Legal := by decide +kernel
  refine ⟨hwell, hnames, ?_⟩
  cases hrun : instrument echoProgram none with
  | ok out => exact ⟨out, rfl, (instrument_legal hwell hnames hrun).2 hlegal hblocks⟩
  | error refusal => rw [hrun] at hok; cases hok

/-- A function that declares a variable and a function of one name. -/
def sharedNameProgram : Json :=
  let function (name : String) (statements : List Json) : Json := .obj [("type", .str "FunctionDeclaration"),
    ("id", .ident (.str name)), ("params", .arr []), ("body", blockOf statements), ("generator", .bool false),
    ("expression", .bool false), ("async", .bool false)]
  let declaration : Json := .obj [("type", .str "VariableDeclaration"), ("declarations", .arr [
    .obj [("type", .str "VariableDeclarator"), ("id", .ident (.str "a")), ("init", .null)]]), ("kind", .str "var")]
  .obj [("type", .str "Program"), ("body", .arr [function "f" [declaration, function "a" []]]), ("sourceType", .str "script")]

/-- In the block that is tried, the variable and the function are in each other's way. -/
theorem redeclared_function : sharedNameProgram.WellFormed ∧ sharedNameProgram.Unreserved ∧
    (∀ s ∈ scopesOf false sharedNameProgram, s.Legal) ∧
    ∃ out, instrument sharedNameProgram none = .ok out ∧ ∃ s ∈ scopesOf false out, ¬ s.Legal := by
  have hillegal : (instrument sharedNameProgram none).toOption.any
      (fun out => decide (∃ s ∈ scopesOf false out, ¬ s.Legal)) = true := by decide +kernel
  refine ⟨by decide +kernel, by decide +kernel, by decide +kernel, ?_⟩
  cases hrun : instrument sharedNameProgram none with
  | ok out =>
    rw [hrun] at hillegal
    exact ⟨out, rfl, of_decide_eq_true hillegal⟩
  | error refusal => rw [hrun] at hillegal; cases hillegal

end ScriptTrace
