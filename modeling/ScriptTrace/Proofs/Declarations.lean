import ScriptTrace.Proofs.Erasing
import ScriptTrace.Proofs.Surveys

/-!
# The declarations of a list of statements

The names that a list of statements declares: what it declares by itself, and the variables declared anywhere below its
statements, but not in the functions there.

* `DeclKind`, `declarations` : how names are declared, and the names that a list declares;
* `Compatible` : whether two declarations may stand in one scope;
* `Rewrites.declarations_match` : what becomes of a value declares what the value does, and the variables that carry the
  probes of counted loops.
-/

namespace ScriptTrace

open Probe Rewriting Survey

/-- How a name is declared. -/
inductive DeclKind where
  | var
  | lexical
  /-- As a function, which is plain when it is neither a generator nor asynchronous. -/
  | function (plain : Bool)
  deriving DecidableEq

/-- Where a value stands in a list of statements. -/
inductive Depth where
  /-- It is a statement of the list. -/
  | item
  /-- It is below a statement. -/
  | below
  /-- It is what is declared. -/
  | binding (kind : DeclKind)
  deriving DecidableEq

namespace Rewriting

/-- The fields with the statements below a statement. -/
def belowTable : List (List String × List String) :=
  [(["BlockStatement", "WithStatement", "CatchClause"], ["body"]),
    (["IfStatement"], ["consequent", "alternate"]),
    (["TryStatement"], ["block", "handler", "finalizer"]),
    (["SwitchStatement"], ["cases"]),
    (loopTypes, ["left", "body"]),
    (["ForStatement"], ["init", "body"])]

/-- The fields with what a pattern binds. -/
def bindingTable : List (List String × List String) :=
  [(["VariableDeclarator"], ["id"]),
    (["AssignmentPattern"], ["left"]),
    (["RestElement"], ["argument"]),
    (["ArrayPattern"], ["elements"]),
    (["ObjectPattern"], ["properties"]),
    (["Property"], ["value"])]

/-- The kind of names a statement declares by itself. -/
def declKind (type : String) (fields : Fields Json) : DeclKind :=
  if type = "FunctionDeclaration" then
    .function (!(Json.field "generator" (.obj fields)).truthy && !(Json.field "async" (.obj fields)).truthy)
  else if (Json.field "kind" (.obj fields)).string? = some "var" then .var
  else .lexical

/-- The fields with the names a statement declares by itself. -/
def declaredField : List (String × String) :=
  [("VariableDeclaration", "declarations"), ("FunctionDeclaration", "id"), ("ClassDeclaration", "id")]

/-- Variables are declared for the whole list, everything else where it stands. -/
def belowOf (d : Depth) (type : String) (fields : Fields Json) (key : String) : Option Depth :=
  if declaredField.contains (type, key) then
    if d = .item ∨ declKind type fields = .var then some (.binding (declKind type fields)) else none
  else if [("LabeledStatement", "body"), ("SwitchCase", "consequent")].contains (type, key) then some d
  else if key ∈ (ofGroup type belowTable).getD [] then some .below
  else none

/-- The names that a list of statements declares. -/
def declarations : Survey Depth (DeclKind × String) where
  own d type fields :=
    match d with
    | .binding kind => if type = "Identifier" then (Json.field "name" (.obj fields)).string?.toList.map (kind, ·) else []
    | _ => []
  next d type fields key :=
    match d with
    | .binding kind => if key ∈ (ofGroup type bindingTable).getD [] then some (.binding kind) else none
    | d => belowOf d type fields key

end Rewriting

/-! ## Declarations in one scope -/

/-- Functions at the top of a program or function are declared as variables are. -/
def DeclKind.isLexical (top : Bool) : DeclKind → Bool
  | .var => false
  | .lexical => true
  | .function _ => !top

/-- Two declarations of one name: variables may be declared again, and so may plain functions outside of strict code. -/
def Compatible (strict top : Bool) (d e : DeclKind × String) : Prop :=
  d.2 = e.2 → d.1.isLexical top = false ∧ e.1.isLexical top = false ∨
    strict = false ∧ d.1 = .function true ∧ e.1 = .function true

instance (strict top : Bool) (d e : DeclKind × String) : Decidable (Compatible strict top d e) :=
  inferInstanceAs (Decidable (_ → _))

/-- A variable that carries the probes of a counted loop. -/
def CarriesProbes (d : DeclKind × String) : Prop := d.1 = .var ∧ Json.isReserved d.2 = true

theorem Matches.mem {α : Type} {E : α → Prop} {as bs : List α} (h : Matches (· = ·) E as bs) :
    ∀ b ∈ bs, b ∈ as ∨ E b := by
  induction h with
  | nil => exact fun b hb => nomatch hb
  | cons hab _ ih =>
    intro b hb
    rcases List.mem_cons.1 hb with rfl | hb
    · exact .inl (hab ▸ List.mem_cons_self)
    · exact (ih b hb).imp_left (List.mem_cons_of_mem _)
  | extra he _ ih =>
    intro b hb
    rcases List.mem_cons.1 hb with rfl | hb
    · exact .inr he
    · exact ih b hb

theorem Matches.sublist {α : Type} {E : α → Prop} {as bs : List α} (h : Matches (· = ·) E as bs) : as.Sublist bs := by
  induction h with
  | nil => exact .slnil
  | cons hab _ ih => exact hab ▸ ih.cons_cons _
  | extra _ _ ih => exact ih.cons _

/-- Extras that are compatible with everything change nothing. -/
theorem Matches.pairwise_iff {α : Type} {E : α → Prop} {R : α → α → Prop} {as bs : List α} (h : Matches (· = ·) E as bs)
    (hextra : ∀ e, E e → ∀ a, a ∈ as ∨ E a → R e a ∧ R a e) : bs.Pairwise R ↔ as.Pairwise R := by
  refine ⟨fun hbs => hbs.sublist h.sublist, fun has => ?_⟩
  induction h with
  | nil => exact .nil
  | @cons a b as bs hab hrest ih =>
    obtain ⟨ha, has⟩ := List.pairwise_cons.1 has
    refine List.pairwise_cons.2 ⟨fun c hc => ?_, ih (fun e he a' ha' => ?_) has⟩
    · rw [← hab]
      rcases hrest.mem c hc with hc | hc
      · exact ha c hc
      · exact (hextra c hc a (.inl List.mem_cons_self)).2
    · exact hextra e he a' (ha'.imp_left (List.mem_cons_of_mem _))
  | extra he hrest ih =>
    exact List.pairwise_cons.2 ⟨fun c hc => (hextra _ he c (hrest.mem c hc)).1, ih hextra has⟩

/-- The variables that carry probes are compatible with names of programs. -/
theorem pairwise_compatible_iff {strict top : Bool} {ds es : List (DeclKind × String)} (h : Matches (· = ·) CarriesProbes ds es)
    (hnames : ∀ d ∈ ds, Json.isReserved d.2 = false) :
    es.Pairwise (Compatible strict top) ↔ ds.Pairwise (Compatible strict top) := by
  refine h.pairwise_iff fun e ⟨hvar, hreserved⟩ a ha => ?_
  have hvars (ha : CarriesProbes a) : a.1.isLexical top = false ∧ e.1.isLexical top = false := by
    rw [ha.1, hvar]
    exact ⟨rfl, rfl⟩
  have hne (ha : a ∈ ds) : a.2 ≠ e.2 := by
    intro he
    rw [← he, hnames a ha] at hreserved
    cases hreserved
  rcases ha with ha | ha
  · exact ⟨fun he => absurd he.symm (hne ha), fun he => absurd he (hne ha)⟩
  · exact ⟨fun _ => .inl (hvars ha).symm, fun _ => .inl (hvars ha)⟩

/-! ## Names -/

section Names

variable {d : Depth} {type key : String} {fields : Fields Json} {v : Json}

/-- The names that a program declares are not reserved. -/
theorem declarations_unreserved (h : v.Unreserved) : ∀ n ∈ declarations.collect d v, Json.isReserved n.2 = false := by
  refine forall_collect (I := fun _ => True) (Q := fun n : DeclKind × String => Json.isReserved n.2 = false) (fun _ _ _ _ _ _ _ => trivial)
    (fun d type fields _ htype hnames n hn => ?_) d v trivial h
  have hidentifier : (Json.obj fields).isIdentifier Json.isReserved = false := Json.Unreserved.isIdentifier hnames fun _ h => h
  cases d with
  | binding kind =>
    by_cases hname : type = "Identifier"
    · rw [show declarations.own (.binding kind) type fields =
        (Json.field "name" (.obj fields)).string?.toList.map (kind, ·) from if_pos hname] at hn
      obtain ⟨name, hname', rfl⟩ := List.mem_map.1 hn
      rw [Json.isIdentifier, show (Json.obj fields).type? = some "Identifier" from hname ▸ htype,
        Option.mem_toList.1 hname'] at hidentifier
      exact hidentifier
    · rw [show declarations.own (.binding kind) type fields = [] from if_neg hname] at hn
      cases hn
  | _ => cases hn

/-- Below a statement only variables are declared. -/
theorem declarations_below : ∀ n ∈ declarations.collect .below v, n.1 = .var := by
  have hall : v.everyObject (fun _ => true) = true := Json.everyObject_of_forall (fun _ => rfl) v
  refine forall_collect (I := fun d : Depth => d = .below ∨ d = .binding .var) (Q := fun n : DeclKind × String => n.1 = .var)
    (fun d type fields key d' hd hnext => ?_) (fun d type fields hd _ _ n hn => ?_) .below v (.inl rfl) hall
  · rcases hd with rfl | rfl
    · change belowOf .below type fields key = some d' at hnext
      unfold belowOf at hnext
      split at hnext
      · split at hnext
        · next h =>
          cases hnext
          rw [h.resolve_left (by decide)]
          exact .inr rfl
        · cases hnext
      · split at hnext
        · cases hnext
          exact .inl rfl
        · split at hnext
          · cases hnext
            exact .inl rfl
          · cases hnext
    · change (if _ then _ else _) = _ at hnext
      split at hnext
      · cases hnext
        exact .inr rfl
      · cases hnext
  · rcases hd with rfl | rfl
    · cases hn
    · change n ∈ (if _ then _ else _) at hn
      split at hn
      · obtain ⟨name, -, rfl⟩ := List.mem_map.1 hn
        rfl
      · cases hn

end Names

/-! ## Where declarations are looked for -/

/-- The fields that declarations are looked for in. -/
def reached : List (String × String) :=
  declaredField ++ [("LabeledStatement", "body"), ("SwitchCase", "consequent")] ++
    (belowTable ++ bindingTable).flatMap fun g => g.1.flatMap fun type => g.2.map (type, ·)

section Reached

variable {d d' : Depth} {type key : String} {fields : Fields Json} {v : Json}

theorem mem_reached_of_table {table : List (List String × List String)} (h : key ∈ (ofGroup type table).getD []) :
    (type, key) ∈ table.flatMap fun g => g.1.flatMap fun type => g.2.map (type, ·) := by
  cases hkeys : ofGroup type table with
  | none => rw [hkeys] at h; cases h
  | some keys =>
    rw [hkeys] at h
    obtain ⟨g, hg, hmem, rfl⟩ := ofGroup_mem_types hkeys
    exact List.mem_flatMap.2 ⟨g, hg, List.mem_flatMap.2 ⟨type, hmem, List.mem_map.2 ⟨key, h, rfl⟩⟩⟩

theorem mem_reached (h : declarations.next d type fields key = some d') : (type, key) ∈ reached := by
  have htables {table : List (List String × List String)} (htable : table = belowTable ∨ table = bindingTable)
      (h : key ∈ (ofGroup type table).getD []) : (type, key) ∈ reached := by
    have hmem := mem_reached_of_table h
    rw [reached, List.flatMap_append]
    rcases htable with rfl | rfl <;> simp [hmem]
  have hbelow (h : belowOf d type fields key = some d') : (type, key) ∈ reached := by
    unfold belowOf at h
    split at h
    · next hmem => exact List.mem_append.2 (.inl (List.mem_append.2 (.inl (List.contains_iff_mem.1 hmem))))
    · split at h
      · next hmem => exact List.mem_append.2 (.inl (List.mem_append.2 (.inr (List.contains_iff_mem.1 hmem))))
      · split at h
        · next hmem => exact htables (.inl rfl) hmem
        · cases h
  cases d with
  | binding kind =>
    change (if _ then _ else _) = _ at h
    split at h
    · next hmem => exact htables (.inr rfl) hmem
    · cases h
  | _ => exact hbelow h

/-- The names that statements declare are kept as they are; everything else is visited. -/
theorem isVisited_of_reached (h : (type, key) ∈ reached) : ¬ (key = "loc" ∨ key = "range") ∧
    (key = "id" ∧ (type, key) ∈ [("FunctionDeclaration", "id"), ("ClassDeclaration", "id"), ("VariableDeclarator", "id")] ∨
      isVisited type key = true ∧ frameKind type key ∈ [.same, .iteration, .counted, .init]) := by
  have hall : ∀ p ∈ reached, ¬ (p.2 = "loc" ∨ p.2 = "range") ∧
      (p.2 = "id" ∧ p ∈ [("FunctionDeclaration", "id"), ("ClassDeclaration", "id"), ("VariableDeclarator", "id")] ∨
        isVisited p.1 p.2 = true ∧ frameKind p.1 p.2 ∈ [FrameKind.same, .iteration, .counted, .init]) := by decide
  exact hall _ h

/-- The parts of statements that hold others are below them. -/
theorem below_of_type (h : declarations.next d type fields key = some d') (htype : type ∈ belowTable.flatMap Prod.fst) :
    d' = .below := by
  have hall : ∀ t ∈ belowTable.flatMap Prod.fst, ofGroup t bindingTable = none ∧
      t ∉ ["VariableDeclaration", "FunctionDeclaration", "ClassDeclaration", "LabeledStatement", "SwitchCase"] := by decide
  obtain ⟨hbinding, hother⟩ := hall type htype
  simp only [List.mem_cons, List.not_mem_nil, or_false, not_or] at hother
  have hbelow (h : belowOf d type fields key = some d') : d' = .below := by
    rw [belowOf, if_neg (by simp [declaredField, hother]), if_neg (by simp [hother])] at h
    split at h
    · exact (Option.some.inj h).symm
    · cases h
  cases d with
  | binding kind =>
    rw [show declarations.next (.binding kind) type fields key = none from if_neg (by rw [hbinding]; exact List.not_mem_nil)] at h
    cases h
  | _ => exact hbelow h

/-- A statement that holds others declares variables only. -/
theorem declarations_of_type (htype : Fields.type? fields = some type) (h : type ∈ belowTable.flatMap Prod.fst) :
    ∀ n ∈ declarations.collect .item (.obj fields), n.1 = .var := by
  intro n hn
  have hleaf : ∀ t ∈ belowTable.flatMap Prod.fst, t ∉ leafTypes := by decide
  rw [collect_entered htype (hleaf type h)] at hn
  obtain ⟨f, -, hn⟩ := List.mem_flatMap.1 ((List.mem_append.1 hn).resolve_left List.not_mem_nil)
  unfold part at hn
  split at hn
  · cases hn
  · split at hn
    · cases hn
    · next d hnext =>
      obtain rfl := below_of_type hnext h
      exact declarations_below n hn

/-- Statements of other types declare nothing. -/
theorem declarations_eq_nil (htype : Fields.type? fields = some type) (h : type ∉ "Identifier" :: reached.map Prod.fst) :
    declarations.collect d (.obj fields) = [] := by
  have hidentifier : type ≠ "Identifier" := fun he => h (he ▸ List.mem_cons_self)
  have hown : declarations.own d type fields = [] := by
    cases d with
    | binding kind => exact if_neg hidentifier
    | _ => rfl
  rw [collect_obj htype, hown, List.nil_append]
  refine ite_eq_left_iff.2 fun _ => List.flatMap_eq_nil_iff.2 fun f _ => ?_
  cases hnext : declarations.next d type fields f.1 with
  | none => rw [part, hnext, ite_self]
  | some d' => exact absurd (List.mem_cons_of_mem _ (List.mem_map_of_mem (mem_reached hnext))) h

theorem declarations_statement (e : Json) : declarations.collect d (.expressionStatement e) = [] := by
  have htype : (Json.expressionStatement e).type? = some "ExpressionStatement" := rfl
  exact declarations_eq_nil htype (by decide)

theorem declarations_records {records : List Json} (h : ∀ r ∈ records, IsRecordStatement r) :
    declarations.collect d (.arr records) = [] := collect_silent fun r hr => by
  obtain ⟨e, -, rfl⟩ := h r hr
  exact declarations_statement e

/-- Blocks that are made declare the variables that their statements do. -/
theorem declarations_blockOf (statements : List Json) :
    declarations.collect .below (blockOf statements) = declarations.collect .below (.arr statements) := by
  have htype : Fields.type? (blockFields statements) = some "BlockStatement" := rfl
  have hnext : declarations.next .below "BlockStatement" (blockFields statements) "body" = some .below := rfl
  rw [show blockOf statements = .obj (blockFields statements) from rfl, collect_entered htype (by decide), blockFields,
    List.flatMap_cons, List.flatMap_cons, List.flatMap_nil, List.append_nil]
  change [] ++ (declarations.part .below "BlockStatement" (blockFields statements) "type" _ ++
    declarations.part .below "BlockStatement" (blockFields statements) "body" _) = _
  rw [part_inert rfl, part_of_next (by decide) hnext]
  rfl

theorem declarations_asBlock : declarations.collect .below (asBlock v) = declarations.collect .below v := by
  unfold asBlock
  split
  · next h => rw [declarations_blockOf, collect_singleton (Bool.and_eq_true_iff.1 h).1]
  · rfl

theorem declarations_readyField (h : declarations.next d type fields key = some d') :
    declarations.collect d' (readyField type key v) = declarations.collect d' v := by
  by_cases htype : type ∈ "IfStatement" :: "ForStatement" :: loopTypes
  · have hall : ∀ t ∈ "IfStatement" :: "ForStatement" :: loopTypes, t ∈ belowTable.flatMap Prod.fst ∧ t ∉ functionTypes := by
      decide
    obtain ⟨hmem, hfunction⟩ := hall type htype
    obtain rfl := below_of_type h hmem
    unfold readyField
    split
    · exact declarations_asBlock
    · split
      · exact declarations_asBlock
      · rw [if_neg fun h => hfunction h.1]
  · simp only [List.mem_cons, not_or] at htype
    have hfunction : ¬ (type ∈ functionTypes ∧ key = "body") := by
      rintro ⟨hmem, rfl⟩
      have hall : ∀ t ∈ functionTypes, (t, "body") ∉ reached := by decide
      exact hall type hmem (mem_reached h)
    rw [readyField, if_neg fun h => htype.1 h.1, if_neg fun h => ?_, if_neg hfunction]
    exact (List.mem_cons.1 h.1).elim htype.2.1 htype.2.2

end Reached

/-! ## What becomes of declarations -/

namespace Matches

variable {α : Type} {E : α → Prop}

theorem refl : ∀ as : List α, Matches (· = ·) E as as
  | [] => .nil
  | _ :: as => .cons rfl (refl as)

theorem trans {as bs cs : List α} (h : Matches (· = ·) E as bs) (h' : Matches (· = ·) E bs cs) : Matches (· = ·) E as cs := by
  induction h' generalizing as with
  | nil => exact h
  | cons hbc _ ih =>
    cases h with
    | cons hab hrest => exact .cons (hab.trans hbc) (ih hrest)
    | extra he hrest => exact .extra (hbc ▸ he) (ih hrest)
  | extra he _ ih => exact .extra he (ih h)

end Matches

section Frames

variable {d : Depth} {code : Option String} {classes : List Json} {up : Option Json} {type key : String} {name : Json}
  {fields made out : Fields Json}

/-- A declaration of variables is told by its declarators. -/
theorem declarations_variables {decl : Fields Json} (htype : Fields.type? decl = some "VariableDeclaration")
    (hnodup : (Fields.names decl).Nodup) : declarations.collect .below (.obj decl) =
      if (Json.field "kind" (.obj decl)).string? = some "var" then
        declarations.collect (.binding .var) (Json.field "declarations" (.obj decl)) else [] := by
  have hkind : declKind "VariableDeclaration" decl =
      if (Json.field "kind" (.obj decl)).string? = some "var" then .var else .lexical := if_neg (by decide)
  have hother {k : String} (hk : k ≠ "declarations") : declarations.next .below "VariableDeclaration" decl k = none := by
    change (if _ then _ else _) = _
    rw [if_neg (by simp [declaredField, hk]), if_neg (by simp), if_neg (by simp [ofGroup, belowTable, loopTypes])]
  rw [collect_only "declarations" htype (by decide) hnodup fun k v _ hk => by rw [part, hother hk, ite_self], part,
    if_neg (by decide)]
  have hnext : declarations.next .below "VariableDeclaration" decl "declarations" =
      if Depth.below = .item ∨ declKind "VariableDeclaration" decl = .var then
        some (.binding (declKind "VariableDeclaration" decl)) else none := by
    change belowOf .below "VariableDeclaration" decl "declarations" = _
    rw [belowOf, if_pos (by decide)]
  by_cases hvar : (Json.field "kind" (.obj decl)).string? = some "var"
  · rw [if_pos hvar] at hkind ⊢
    rw [hnext, hkind]
    rfl
  · rw [if_neg hvar] at hkind ⊢
    rw [hnext, hkind]
    rfl

theorem declarations_initDeclarator (kind : DeclKind) (n : Nat) (probes : List Json) :
    declarations.collect (.binding kind) (initDeclarator n probes) = [(kind, initName n)] := by
  unfold initDeclarator
  split <;> rfl

/-- An expression declares nothing. -/
theorem declarations_initializer {w : Json} (hd : d = .item ∨ d = .below) (hproper : (Json.obj fields).Proper)
    (htype : Fields.type? fields = some "ForStatement") (hw : w.type? = (Json.field "init" (.obj fields)).type?)
    (hlist : ∀ items, w ≠ .arr items) (hnot : (Json.field "init" (.obj fields)).type? ≠ some "VariableDeclaration") :
    declarations.collect d w = [] := by
  rw [← hw] at hnot
  cases hwtype : w.type? with
  | none =>
    cases w with
    | arr items => exact absurd rfl (hlist items)
    | obj decl => rw [collect, show Fields.type? decl = none from hwtype]
    | _ => rfl
  | some t =>
    have hmem : t ∈ "VariableDeclaration" :: Grammar.expressions := by
      rw [hwtype] at hw
      rcases Json.fits_optional (hproper.fits "init" htype rfl rfl) with h | h | ⟨init, itype, h, hitype, hmem⟩
      · rw [Json.field, Json.get?, h] at hw
        cases hw
      · rw [Json.field_of_get? h] at hw
        cases hw
      · rw [Json.field_of_get? h, show (Json.obj init).type? = some itype from hitype] at hw
        exact Option.some.inj hw ▸ hmem
    have hall : ∀ t ∈ Grammar.expressions, t ≠ "Identifier" → t ∉ "Identifier" :: reached.map Prod.fst := by decide
    have hexpression : t ∈ Grammar.expressions := (List.mem_cons.1 hmem).resolve_left fun h => hnot (h ▸ hwtype)
    cases w with
    | obj decl =>
      by_cases hname : t = "Identifier"
      · rw [collect_leaf (show Fields.type? decl = some t from hwtype) (hname ▸ by decide)]
        rcases hd with rfl | rfl <;> rfl
      · exact declarations_eq_nil hwtype (hall t hexpression hname)
    | _ => cases hwtype

/-- The initializer of a counted loop declares what it did, and the variable that carries its probes. -/
theorem declarations_init {w o : Json} (hframe : Rewriting.Frame code classes up type fields made .init w o)
    (hproper : (Json.obj fields).Proper) (htype : Fields.type? fields = some "ForStatement")
    (hw : w.type? = (Json.field "init" (.obj fields)).type?) (hlist : ∀ items, w ≠ .arr items)
    (hnodup : ∀ decl, w = .obj decl → Fields.type? decl = some "VariableDeclaration" → (Fields.names decl).Nodup) :
    Matches (· = ·) CarriesProbes (declarations.collect .below w) (declarations.collect .below o) := by
  have hfollowed (probe : Json) (hnot : (Json.field "init" (.obj fields)).type? ≠ some "VariableDeclaration") :
      Matches (· = ·) CarriesProbes (declarations.collect .below w) (declarations.collect .below (sequenceOf w probe)) := by
    rw [declarations_initializer (.inr rfl) hproper htype hw hlist hnot]
    exact .nil
  cases hframe with
  | noInit | initNothing => exact .refl _
  | initDeclared line _ n names hline h =>
    cases w with
    | obj decl =>
      have hdecl : Fields.type? decl = some "VariableDeclaration" := hw.trans h
      cases hv : Fields.get? "declarations" decl with
      | none => rw [onList, hv]; exact .refl _
      | some v =>
        cases v with
        | arr items =>
          have hnd := hnodup decl rfl hdecl
          have hdecl' (items : List Json) : Fields.type? (Fields.set "declarations" (.arr items) decl) = some "VariableDeclaration" := by
            rwa [Fields.type?_set (by decide)]
          have hnd' (items : List Json) : (Fields.names (Fields.set "declarations" (.arr items) decl)).Nodup := by
            rwa [Fields.names_set_of_mem (Fields.mem_names_of_get? hv)]
          have hkind (items : List Json) : Json.field "kind" (.obj (Fields.set "declarations" (.arr items) decl)) =
              Json.field "kind" (.obj decl) := by
            rw [Json.field, Json.field, Json.get?, Json.get?, Fields.get?_set, if_neg (by decide)]
          have hfield (items : List Json) : Json.field "declarations" (.obj (Fields.set "declarations" (.arr items) decl)) =
              .arr items := Json.field_of_get? (by rw [Fields.get?_set, if_pos rfl])
          rw [onList_obj _ hv, declarations_variables hdecl hnd, declarations_variables (hdecl' _) (hnd' _), hkind,
            Json.field_of_get? hv, hfield, collect_append]
          split
          · rw [← List.append_nil (declarations.collect _ (.arr items)), List.append_assoc]
            refine (Matches.refl _).append ?_
            rw [List.nil_append, collect_singleton (by unfold initDeclarator; split <;> rfl), declarations_initDeclarator]
            exact .extra ⟨rfl, by rw [Json.isReserved, Json.isInitName_initName, Bool.or_true]⟩ .nil
          · exact .nil
        | _ => rw [onList, hv]; exact .refl _
    | _ => exact .refl _
  | initAssigned line _ targets hline h => exact hfollowed _ h
  | initShown line _ text hline h => exact hfollowed _ h

/-- The body of a loop declares what it did. -/
theorem declarations_body {k : FrameKind} {block bmade plain : Fields Json} {bname w o : Json} {classes' : List Json}
    {up' : Option Json} (hframe : Rewriting.Frame code classes up type fields made k w o) (hbody : k ∈ [.iteration, .counted])
    (hw : w = .obj plain) (hblock : RewrittenNode code classes' up' "BlockStatement" bname block bmade plain) :
    declarations.collect .below o = declarations.collect .below w := by
  obtain ⟨ss, ts, -, hitems, -⟩ := hblock.exists_weave "body" rfl
  generalize weave ss ts = items at hitems
  have hlist (items : List Json) : declarations.collect .below (.obj (Fields.set "body" (.arr items) plain)) =
      declarations.collect .below (.arr items) := (collect_rewrittenBlock items hblock rfl).trans rfl
  have hframed {f : List Json → List Json} (records : List Json) (hf : ∀ items, f items = records ++ items)
      (h : ∀ r ∈ records, IsRecordStatement r) :
      declarations.collect .below (onList "body" f w) = declarations.collect .below w := by
    rw [hw, onList_obj _ hitems, hlist, hf, collect_append, declarations_records h, List.nil_append, ← hlist items,
      Fields.set_of_get? hitems]
  cases hframe with
  | iteration line _ records hline hrecords =>
    refine hframed (_ :: records) (fun _ => rfl) fun r hr => ?_
    rcases List.mem_cons.1 hr with rfl | hr
    · exact isRecordStatement_statement ..
    · exact (isLocals_of_iteration hrecords r hr).isRecordStatement
  | uncounted => rfl
  | counted line _ text =>
    refine hframed [_] (fun _ => rfl) fun r hr => ?_
    rw [List.mem_singleton.1 hr]
    exact isRecordStatement_statement ..
  | _ => simp at hbody

theorem type_of_framed (h : frameKind type key ∈ [.iteration, .counted, .init]) :
    type ∈ belowTable.flatMap Prod.fst := by
  have hall : ∀ g ∈ frameTable, ∀ e ∈ g.2, e.2 ∈ [FrameKind.iteration, .counted, .init] → ∀ t ∈ g.1,
      t ∈ belowTable.flatMap Prod.fst := by decide
  obtain ⟨g, hg, hmem, hentry⟩ := exists_of_frameKind rfl fun hsame => absurd (hsame ▸ h) (by decide)
  exact hall g hg _ hentry h type hmem

/-- What becomes of a value has no name twice. -/
theorem Rewrites.nodup_of_node {v : Json} (h : Rewrites code .visited classes up v (.obj out))
    (htype : Fields.type? out = some type) : (Fields.names out).Nodup := by
  cases h with
  | value _ _ _ hnode =>
    rw [Json.isNode_of_type? (j := .obj out) htype] at hnode
    cases hnode
  | node _ _ _ _ _ _ _ htype hproper hname hmade h hout hframe =>
    exact RewrittenNode.nodup_out ⟨htype, hproper, hname, hmade, hout, h, hframe⟩

end Frames

/-- What is shown by induction of a value and what it becomes. -/
def DeclarationsMatch (m : Mode) (v w : Json) : Prop :=
  m ≠ .kept → ∀ d, Matches (· = ·) CarriesProbes (declarations.collect d v) (declarations.collect d w)

section Nodes

variable {d : Depth} {code : Option String} {classes : List Json} {up : Option Json} {type key : String} {name : Json}
  {fields made out : Fields Json} (hnode : RewrittenNode code classes up type name fields made out)

include hnode

/-- A rewritten node declares names of the kinds it did. -/
theorem RewrittenNode.declKind_eq : declKind type out = declKind type fields := by
  unfold declKind
  split
  · next h =>
    subst h
    have hfield {key : String} (hkey : key ∈ ["generator", "async"]) : Json.field key (.obj out) = Json.field key (.obj fields) := by
      simp only [List.mem_cons, List.not_mem_nil, or_false] at hkey
      rw [Json.field, Json.field, Json.get?, Json.get?]
      rcases hkey with rfl | rfl
      all_goals rw [hnode.get?_kept rfl (by decide)]
    rw [hfield (by simp), hfield (by simp)]
  · rw [Json.field, Json.field, Json.get?, Json.get?, hnode.get?_plain "kind" (by decide)]

theorem RewrittenNode.declarations_next : declarations.next d type out key = declarations.next d type fields key := by
  have hbelow (d : Depth) : belowOf d type out key = belowOf d type fields key := by
    rw [belowOf, belowOf, hnode.declKind_eq]
  cases d with
  | binding kind => rfl
  | _ => exact hbelow _

theorem RewrittenNode.declarations_own : declarations.own d type out = declarations.own d type fields := by
  cases d with
  | binding kind =>
    change (if _ then _ else _) = if _ then _ else _
    rw [Json.field, Json.field, Json.get?, Json.get?, hnode.get?_plain "name" (by decide)]
  | _ => rfl

/-- A field declares in its frame what it declares by itself, and the variables that carry the probes of a counted loop. -/
theorem RewrittenNode.declarations_framed {d' : Depth} {v w o : Json} (hnext : declarations.next d type fields key = some d')
    (hkinds : frameKind type key ∈ [.same, .iteration, .counted, .init]) (hv : Fields.get? key (completed type fields) = some v)
    (hrw : Rewrites code (mode type fields key) (classesAt classes type key name) (some (.obj fields)) (readyField type key v) w)
    (hframe : Rewriting.Frame code classes up type fields made (frameKind type key) w o) :
    Matches (· = ·) CarriesProbes (declarations.collect d' w) (declarations.collect d' o) := by
  by_cases hsame : frameKind type key = .same
  · rw [hsame, Rewriting.Frame.same_iff] at hframe
    exact hframe ▸ .refl _
  rw [mode_of_framed hsame] at hrw
  by_cases hbody : frameKind type key ∈ [.iteration, .counted]
  · have hbodies : frameKind type key ∈ [.iteration, .counted, .function] ∧ frameKind type key ∈ [.iteration, .counted, .init] := by
      simp only [List.mem_cons, List.not_mem_nil, or_false] at hbody
      rcases hbody with h | h <;> rw [h] <;> decide
    obtain ⟨-, block, hready, htype⟩ := exists_block_of_body hnode.proper hnode.type hbodies.1 hv
    rw [hready] at hrw
    obtain ⟨bname, bmade, plain, hplain, hblock⟩ := hrw.exists_node htype
    obtain rfl := below_of_type hnext (type_of_framed hbodies.2)
    rw [declarations_body hframe hbody hplain hblock]
    exact .refl _
  · have hinit : frameKind type key = .init := by
      simp only [List.mem_cons, List.not_mem_nil, or_false, not_or] at hkinds hbody
      exact ((hkinds.resolve_left hsame).resolve_left hbody.1).resolve_left hbody.2
    obtain ⟨rfl, rfl⟩ := frameKind_init hinit
    obtain rfl := below_of_type hnext (by decide)
    refine declarations_init (hinit ▸ hframe) hnode.proper hnode.type (hrw.type?_init hv hinit)
      (hnode.ne_arr hv hrw (by decide) (by decide)) fun decl hdecl htype => ?_
    exact (hdecl ▸ hrw).nodup_of_node htype

/-- Each field of a rewritten node declares what it did. -/
theorem RewrittenNode.declarations_field (ih : ∀ key v w, Fields.get? key (prepared type fields) = some v →
      Fields.get? key made = some w → DeclarationsMatch (mode type fields key) v w) {v o : Json}
    (hv : Fields.get? key (completed type fields) = some v) (ho : Fields.get? key out = some o) :
    Matches (· = ·) CarriesProbes (declarations.part d type fields key v) (declarations.part d type out key o) := by
  cases hnext : declarations.next d type fields key with
  | none =>
    rw [part, part, hnode.declarations_next, hnext]
    exact .refl _
  | some d' =>
    obtain ⟨hposition, hkept | ⟨hvisited, hkinds⟩⟩ := isVisited_of_reached (mem_reached hnext)
    · -- the names of a declaration are kept
      obtain ⟨rfl, hmem⟩ := hkept
      have hmode : mode type fields "id" = .kept := by
        simp only [List.mem_cons, List.not_mem_nil, or_false, Prod.mk.injEq, and_true] at hmem
        rcases hmem with rfl | rfl | rfl <;> rfl
      have hsame := hnode.get?_kept hmode (by decide)
      rw [get?_completed_of_ne (by decide), ← hsame, ho] at hv
      obtain rfl := Option.some.inj hv
      rw [part, part, hnode.declarations_next]
      exact .refl _
    · rw [part_of_next hposition hnext, part_of_next hposition (hnode.declarations_next.trans hnext)]
      obtain ⟨w, hprepared, hw, hframe⟩ := hnode.exists_made hv ho
      have hmode : mode type fields key ≠ .kept := by
        rw [mode_of_isVisited hvisited]
        split <;> decide
      have hih := ih key _ w hprepared hw hmode d'
      rw [declarations_readyField hnext] at hih
      exact hih.trans (hnode.declarations_framed hnext hkinds hv (hnode.field key _ w hprepared hw) hframe)

end Nodes

section Values

variable {d : Depth} {code : Option String} {m : Mode} {classes : List Json} {up : Option Json}

/-- What becomes of a value declares what the value does, and the variables that carry probes. -/
theorem Rewrites.declarations_match {v w : Json} (h : Rewrites code m classes up v w) : DeclarationsMatch m v w := by
  have hwoven (d : Depth) {ss ts : List Json} : ss.length = ts.length →
      declarations.collect d (.arr (weave ss ts)) = declarations.collect d (.arr ts) := by
    refine collect_woven (fun s => declarations_records fun r hr => ?_) fun s => declarations_records fun r hr => ?_
    · obtain ⟨-, line, name, rfl⟩ := exists_of_mem_declares hr
      exact isRecordStatement_statement ..
    · exact (isLocals_writesAfter r hr).isRecordStatement
  have hmatched : declarations.Matched (fun d => d) (fun d => d) (· = ·) CarriesProbes m v w := by
    refine matched_of_rewrites hwoven (fun hnode ih d => ⟨?_, fun key v o hv ho => ?_⟩) h
    · rw [hnode.declarations_own]
      exact .refl _
    · exact hnode.declarations_field (fun key v w hv hw hm d => (ih key v w hv hw hm d).1) hv ho
  exact fun hm d => (hmatched hm d).1

/-- A field of a rewritten node that is not framed declares what it did. -/
theorem RewrittenNode.declarations_child {type key : String} {name : Json} {fields made out : Fields Json}
    (hnode : RewrittenNode code classes up type name fields made out) (hun : Unframed type) (hmode : mode type fields key ≠ .kept)
    {v : Json} (hv : Fields.get? key fields = some v) : ∃ o, Fields.get? key out = some o ∧
      ∀ d, Matches (· = ·) CarriesProbes (declarations.collect d v) (declarations.collect d o) := by
  obtain ⟨w, hprepared, hw, ho⟩ := Unframed.exists_child hun hnode.names_made hnode.names_out hnode.frame hv
  exact ⟨w, ho, (hnode.field _ _ _ hprepared hw).declarations_match hmode⟩

end Values

end ScriptTrace
