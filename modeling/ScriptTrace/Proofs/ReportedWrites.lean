import ScriptTrace.Proofs.ReadingFaults
import ScriptTrace.Proofs.Weaving

/-!
# Which writes a statement reports

The records after a statement are those of the assignments, updates and declarators in it, wherever in its
expressions they stand. Where an operator may leave an operand unevaluated, so may be the write that is reported.

* `Part`, `Json.parts` : the nodes that count as those of a statement, each with the way to it;
* `Json.evaluated` : those that a completion of the statement evaluates, told by what it chooses;
* `Json.unconditional` : those outside the operands that may be left out;
* `mem_unconditional_iff` : these are the nodes that every completion evaluates;
* `instrument_reports` : the records after the statements of an instrumented program.
-/

namespace ScriptTrace

open Probe Rewriting

/-! ## Parts of a statement -/

/-- A turn on the way from a value to a part of it. -/
inductive Turn where
  | field (key : String)
  | item (index : Nat)
  deriving DecidableEq, Repr

/-- A node in a statement, and the way to it. -/
structure Part where
  way : List Turn
  fields : Fields Json

/-- Which fields are entered, of the node at the end of a way: told by its type and the field. -/
abbrev Entry := List Turn → String → String → Bool

/-- The parts of a node: those of its fields that are entered, in visiting order, then the node itself. -/
def partsOf (enters : Entry) (way : List Turn) (fields : Fields Json) (below : Fields (List Part)) : List Part :=
  match Fields.type? fields with
  | none => []
  | some type =>
    ((sameStatement type fields).filter (enters way type)).flatMap (fun key => (Fields.get? key below).getD []) ++
      [⟨way, fields⟩]

namespace Json

mutual

/-- The nodes in a value that count as those of the statement around, in visiting order. -/
def partsThrough (enters : Entry) (way : List Turn) : Json → List Part
  | .arr items => partsOfItems enters way 0 items
  | .obj fields => partsOf enters way fields (partsOfFields enters way fields)
  | _ => []

def partsOfItems (enters : Entry) (way : List Turn) (index : Nat) : List Json → List Part
  | [] => []
  | x :: xs =>
    (if x.isNode then partsThrough enters (way ++ [.item index]) x else []) ++ partsOfItems enters way (index + 1) xs

def partsOfFields (enters : Entry) (way : List Turn) : List (String × Json) → List (String × List Part)
  | [] => []
  | (key, x) :: rest => (key, partsThrough enters (way ++ [.field key]) x) :: partsOfFields enters way rest

end

/-- All nodes that count as those of a statement. -/
def parts (s : Json) : List Part := s.partsThrough (fun _ _ _ => true) []

end Json

/-! ## Evaluation -/

/-- Whether an operand may be left unevaluated: the right side of a logical operator, a branch of a conditional, and the
default of a pattern. -/
def mayBeLeftOut (type key : String) : Bool :=
  [("LogicalExpression", "right"), ("ConditionalExpression", "consequent"), ("ConditionalExpression", "alternate"),
    ("AssignmentPattern", "right")].contains (type, key)

/-- What a completion chooses at each operator: whether a logical operator goes on to its right side, a condition holds,
and a pattern finds nothing and takes its default. -/
abbrev Choices := List Turn → Bool

/-- Whether an operand is evaluated. Everything is, but where the operator at the end of the way chooses. -/
def isTaken (choices : Choices) : Entry := fun way type key =>
  if mayBeLeftOut type key then if key = "alternate" then !choices way else choices way else true

namespace Json

/-- The parts of a statement that a completion evaluates. -/
def evaluated (choices : Choices) (s : Json) : List Part := s.partsThrough (isTaken choices) []

/-- The parts of a statement outside all operands that may be left out. -/
def unconditional (s : Json) : List Part := s.partsThrough (fun _ type key => !mayBeLeftOut type key) []

/-- The parts of a statement that have records of their own to follow it. -/
def reported (s : Json) : List Part :=
  if s.isOneOf Visit.safeTypes then s.parts.filter fun p => !(ownWrites p.fields).isEmpty else []

end Json

/-! ## Parts, one by one -/

section Parts

variable {enters enters' : Entry} {way : List Turn} {type key : String} {fields : Fields Json} {p : Part}

theorem get?_partsOfFields : ∀ {fields : Fields Json}, Fields.get? key (Json.partsOfFields enters way fields) =
    (Fields.get? key fields).map (Json.partsThrough enters (way ++ [.field key]))
  | [] => rfl
  | (k, x) :: rest => by
    by_cases hk : k = key
    · subst hk
      rw [Json.partsOfFields, Fields.get?, Fields.get?, if_pos rfl, if_pos rfl, Option.map_some]
    · rw [Json.partsOfFields, Fields.get?, Fields.get?, if_neg hk, if_neg hk, get?_partsOfFields]

/-- The parts of a node: itself, and those of the fields that are entered. -/
theorem mem_parts_obj (htype : Fields.type? fields = some type) : p ∈ (Json.obj fields).partsThrough enters way ↔
    p = ⟨way, fields⟩ ∨ ∃ key v, key ∈ sameStatement type fields ∧ enters way type key = true ∧
      Fields.get? key fields = some v ∧ p ∈ v.partsThrough enters (way ++ [.field key]) := by
  simp only [Json.partsThrough, partsOf, htype, List.mem_append, List.mem_singleton, List.mem_flatMap, List.mem_filter,
    get?_partsOfFields]
  constructor
  · rintro (⟨key, ⟨hkey, henter⟩, hp⟩ | hp)
    · cases hv : Fields.get? key fields with
      | none => simp [hv] at hp
      | some v => exact .inr ⟨key, v, hkey, henter, hv, by simpa [hv] using hp⟩
    · exact .inl hp
  · rintro (hp | ⟨key, v, hkey, henter, hv, hp⟩)
    · exact .inr hp
    · exact .inl ⟨key, ⟨hkey, henter⟩, by simpa [hv] using hp⟩

theorem partsThrough_atom {j : Json} (h : j.isAtom = true) : j.partsThrough enters way = [] := by
  cases j <;> first | rfl | cases h

theorem partsThrough_of_untyped (htype : Fields.type? fields = none) : (Json.obj fields).partsThrough enters way = [] := by
  simp only [Json.partsThrough, partsOf, htype]

/-- The parts of a list: those of its nodes. -/
theorem mem_partsOfItems : ∀ {items : List Json} {index : Nat}, p ∈ Json.partsOfItems enters way index items ↔
    ∃ i, ∃ x : Json, items[i]? = some x ∧ x.isNode = true ∧ p ∈ x.partsThrough enters (way ++ [.item (index + i)])
  | [], _ => by simp [Json.partsOfItems]
  | x :: xs, index => by
    rw [Json.partsOfItems, List.mem_append, mem_partsOfItems]
    constructor
    · rintro (hp | ⟨i, y, hy, hnode, hp⟩)
      · split at hp
        · next hnode => exact ⟨0, x, rfl, hnode, hp⟩
        · cases hp
      · exact ⟨i + 1, y, hy, hnode, by rwa [show index + (i + 1) = index + 1 + i by omega]⟩
    · rintro ⟨i, y, hy, hnode, hp⟩
      cases i with
      | zero =>
        cases hy
        exact .inl (by rwa [if_pos hnode])
      | succ i => exact .inr ⟨i, y, hy, hnode, by rwa [show index + (i + 1) = index + 1 + i by omega] at hp⟩

/-- The way to a part goes on from where the walk is. -/
theorem isPrefix_way (j : Json) : ∀ {way : List Turn}, p ∈ j.partsThrough enters way → way <+: p.way := by
  induction j using Json.ind with
  | scalar j hatom =>
    intro way hp
    rw [partsThrough_atom hatom] at hp
    cases hp
  | arr items ih =>
    intro way hp
    obtain ⟨i, x, hx, -, hp⟩ := mem_partsOfItems.1 hp
    exact (List.prefix_append ..).trans (ih x (List.mem_of_getElem? hx) hp)
  | obj fields ih =>
    intro way hp
    cases htype : Fields.type? fields with
    | none => rw [partsThrough_of_untyped htype] at hp; cases hp
    | some type =>
      rcases (mem_parts_obj htype).1 hp with rfl | ⟨key, v, -, -, hv, hp⟩
      · exact List.prefix_refl _
      · exact (List.prefix_append ..).trans (ih _ (Fields.mem_of_get? hv) hp)

/-- A part that is reached stays so when the fields on its way are still entered. -/
theorem mem_of_entered (j : Json) (h : ∀ way type key, way ++ [.field key] <+: p.way → enters way type key = true →
    enters' way type key = true) : ∀ {way : List Turn}, p ∈ j.partsThrough enters way → p ∈ j.partsThrough enters' way := by
  induction j using Json.ind with
  | scalar j hatom =>
    intro way hp
    rw [partsThrough_atom hatom] at hp
    cases hp
  | arr items ih =>
    intro way hp
    obtain ⟨i, x, hx, hnode, hp⟩ := mem_partsOfItems.1 hp
    exact mem_partsOfItems.2 ⟨i, x, hx, hnode, ih x (List.mem_of_getElem? hx) hp⟩
  | obj fields ih =>
    intro way hp
    cases htype : Fields.type? fields with
    | none => rw [partsThrough_of_untyped htype] at hp; cases hp
    | some type =>
      refine (mem_parts_obj htype).2 ?_
      rcases (mem_parts_obj htype).1 hp with rfl | ⟨key, v, hkey, henter, hv, hp⟩
      · exact .inl rfl
      · exact .inr ⟨key, v, hkey, h way type key (isPrefix_way v hp) henter, hv, ih _ (Fields.mem_of_get? hv) hp⟩

end Parts

/-! ## What every completion evaluates -/

/-- The choices of a completion that leaves the way to a part wherever it can: a logical operator or a pattern on the way
does not go on, and a condition takes the other branch. -/
def Choices.leaving (target : List Turn) : Choices := fun way =>
  !decide (way ++ [.field "right"] <+: target) && !decide (way ++ [.field "consequent"] <+: target)

theorem not_taken_leaving {way target : List Turn} {type key : String} (hkey : mayBeLeftOut type key = true)
    (hway : way ++ [.field key] <+: target) : isTaken (.leaving target) way type key = false := by
  have hother {other : String} (h : way ++ [.field other] <+: target) : other = key := by
    have hprefix := List.prefix_of_prefix_length_le h hway (by simp)
    simpa using hprefix.eq_of_length (by simp)
  have hcases : key = "right" ∨ key = "consequent" ∨ key = "alternate" := by
    simp only [mayBeLeftOut, List.contains_iff_mem, List.mem_cons, Prod.mk.injEq, List.not_mem_nil, or_false] at hkey
    tauto
  rw [isTaken, if_pos hkey]
  rcases hcases with rfl | rfl | rfl
  · simp [Choices.leaving, hway]
  · simp [Choices.leaving, hway]
  · have hright : ¬ way ++ [.field "right"] <+: target := fun h => absurd (hother h) (by decide)
    have hconsequent : ¬ way ++ [.field "consequent"] <+: target := fun h => absurd (hother h) (by decide)
    simp [Choices.leaving, hright, hconsequent]

/-- The parts that every completion evaluates are those outside the operands that may be left out. -/
theorem mem_unconditional_iff {s : Json} {p : Part} : p ∈ s.unconditional ↔ ∀ choices, p ∈ s.evaluated choices := by
  constructor
  · intro hp choices
    refine mem_of_entered s (fun way type key _ henter => ?_) hp
    rw [isTaken, if_neg (by simpa using henter)]
  · intro hp
    refine mem_of_entered s (fun way type key hway henter => ?_) (hp (.leaving p.way))
    cases hkey : mayBeLeftOut type key with
    | false => rfl
    | true => rw [not_taken_leaving hkey hway] at henter; cases henter

/-! ## Records -/

theorem writes_eq_parts (j : Json) (way : List Turn) :
    j.writes = (j.partsThrough (fun _ _ _ => true) way).flatMap (ownWrites ·.fields) := by
  induction j using Json.ind generalizing way with
  | scalar j hatom => cases j <;> first | rfl | cases hatom
  | arr items ih =>
    rw [Json.writes_arr, Json.partsThrough]
    generalize 0 = index
    induction items generalizing index with
    | nil => rfl
    | cons x xs ihxs =>
      obtain ⟨hx, hxs⟩ := List.forall_mem_cons.1 ih
      rw [Json.partsOfItems, List.flatMap_cons, List.flatMap_append, ← ihxs hxs]
      split
      · rw [← hx]
      · rfl
  | obj fields ih =>
    cases htype : Fields.type? fields with
    | none =>
      rw [partsThrough_of_untyped htype, Json.writes, writesOf, htype]
      rfl
    | some type =>
      rw [writes_obj htype]
      simp only [Json.partsThrough, partsOf, htype, get?_partsOfFields, List.filter_true, List.flatMap_append, List.flatMap_assoc,
        List.flatMap_singleton]
      refine congrArg (· ++ _) (List.flatMap_congr fun key _ => ?_)
      cases hv : Fields.get? key fields with
      | none => rw [writesIn, hv]; rfl
      | some v =>
        rw [writesIn_eq hv]
        exact ih (key, v) (Fields.mem_of_get? hv) _

/-- The records after a statement are those of the parts it reports. -/
theorem writesAfter_eq_reported (s : Json) : s.writesAfter = s.reported.flatMap (ownWrites ·.fields) := by
  rw [Json.writesAfter, Json.reported]
  split
  · rw [writes_eq_parts s [], Json.parts]
    generalize s.partsThrough (fun _ _ _ => true) [] = ps
    induction ps with
    | nil => rfl
    | cons p ps ih =>
      rw [List.flatMap_cons, List.filter_cons, ih]
      cases hown : ownWrites p.fields <;> simp [hown]
  · rfl

/-- What a part is reported as: an assignment or update by one record of what it wrote, and a declarator by records of the
names it binds. -/
inductive Reports (fields : Fields Json) : Prop where
  | written (type key : String) (htype : Fields.type? fields = some type)
      (hkey : (type, key) ∈ [("AssignmentExpression", "left"), ("UpdateExpression", "argument")]) (line : Json)
      (targets : List Target) (htargets : targetsOf (Json.field key (.obj fields)) = .ok targets)
      (hrecords : ownWrites fields = [localsStatement "assign" line targets])
  | declared (htype : Fields.type? fields = some "VariableDeclarator") (line : Json) (names : List Json)
      (hnames : bindingNames (Json.field "id" (.obj fields)) = .ok names)
      (hrecords : ownWrites fields = names.map fun name => localsStatement "declare" line [.named name])

theorem exists_of_answers_assigned {fields : Fields Json} {target : Json} (h : answers (assigned fields target) ≠ []) :
    ∃ line targets, targetsOf target = .ok targets ∧
      answers (assigned fields target) = [localsStatement "assign" line targets] := by
  unfold assigned at h ⊢
  cases htargets : targetsOf target with
  | error e => rw [htargets] at h; exact absurd rfl h
  | ok targets =>
    simp only [htargets] at h ⊢
    cases targets with
    | nil => exact absurd rfl h
    | cons t ts =>
      cases hline : Node.line (.obj fields) with
      | error e => simp [hline, bind, Except.bind, answers] at h
      | ok line => exact ⟨line, t :: ts, rfl, rfl⟩

theorem exists_of_answers_bound {fields : Fields Json} {target : Json} (h : answers (bound fields target) ≠ []) :
    ∃ line names, bindingNames target = .ok names ∧
      answers (bound fields target) = names.map fun name => localsStatement "declare" line [.named name] := by
  unfold bound at h ⊢
  cases hnames : bindingNames target with
  | error e => rw [hnames] at h; exact absurd rfl h
  | ok names =>
    simp only [hnames] at h ⊢
    cases hline : Node.line (.obj fields) with
    | error e => cases names <;> simp [hline, bind, Except.bind, answers, List.mapM_cons] at h
    | ok line =>
      have hrecords : names.mapM (fun name => (.ok (localsStatement "declare" line [.named name]) : Except Fault Json)) =
          .ok (names.map fun name => localsStatement "declare" line [.named name]) := List.mapM_pure
      exact ⟨line, names, rfl, by simp [bind, Except.bind, answers, pure, Except.pure, hrecords]⟩

theorem reports_of_ownWrites {fields : Fields Json} (h : ownWrites fields ≠ []) : Reports fields := by
  unfold ownWrites at h
  split at h
  · next htype =>
    obtain ⟨line, targets, htargets, hrecords⟩ := exists_of_answers_assigned h
    exact .written _ "left" htype (by simp) line targets htargets (by simpa only [ownWrites, htype] using hrecords)
  · next htype =>
    obtain ⟨line, targets, htargets, hrecords⟩ := exists_of_answers_assigned h
    exact .written _ "argument" htype (by simp) line targets htargets (by simpa only [ownWrites, htype] using hrecords)
  · next htype =>
    obtain ⟨line, names, hnames, hrecords⟩ := exists_of_answers_bound h
    exact .declared htype line names hnames (by simpa only [ownWrites, htype] using hrecords)
  · exact absurd rfl h

/-! ## Programs -/

/-- What becomes of a list of statements: around each statement stand the record of its class and those of the parts that
it reports. -/
def ListReported (code : Option String) (l : StatementList) (out : List Json) : Prop :=
  ∃ ts f, List.Forall₂ (Rewrites code .visited l.classes none) l.statements ts ∧ BodyFrame code l.classes l.around f ∧
    out = f ((l.statements.zip ts).flatMap fun p => p.1.declares ++ p.2 :: p.1.reported.flatMap (ownWrites ·.fields))

theorem ListRewritten.reported {code : Option String} {l : StatementList} {out : List Json} (h : ListRewritten code l out) :
    ListReported code l out := by
  obtain ⟨ts, f, hts, hf, rfl⟩ := h
  refine ⟨ts, f, hts, hf, ?_⟩
  simp only [weave, writesAfter_eq_reported]

/-- The records after the statements of an instrumented program come from the assignments, updates and declarators that
the statements report; every normal completion of a statement evaluates one of these exactly when it stands outside the
operands that may be left out. -/
theorem instrument_reports {tree out : Json} {code : Option String} (h : tree.WellFormed)
    (hrun : instrument tree code = .ok out) :
    Matches (ListReported code) IsGuardList (statementLists tree) (writtenLists out) ∧
      ∀ l ∈ statementLists tree, ∀ s ∈ l.statements, ∀ p ∈ s.reported, Reports p.fields ∧
        (p ∈ s.unconditional ↔ ∀ choices, p ∈ s.evaluated choices) := by
  constructor
  · refine (instrument_landmarks h hrun true).flatMap (fun _ _ hl => ?_) fun _ ho => ho.listOf_match
    exact hl.listOf_match.mono fun _ _ => ListRewritten.reported
  · intro l _ s _ p hp
    have hown : ownWrites p.fields ≠ [] := by
      unfold Json.reported at hp
      split at hp
      · simpa using (List.mem_filter.1 hp).2
      · cases hp
    exact ⟨reports_of_ownWrites hown, mem_unconditional_iff⟩

theorem instrument_reports_echo : echoProgram.WellFormed ∧ ∃ out, instrument echoProgram none = .ok out ∧
    Matches (ListReported none) IsGuardList (statementLists echoProgram) (writtenLists out) := by
  have hwell : echoProgram.WellFormed := by decide +kernel
  have hok : (instrument echoProgram none).isOk = true := by decide +kernel
  refine ⟨hwell, ?_⟩
  cases hrun : instrument echoProgram none with
  | ok out => exact ⟨out, rfl, (instrument_reports hwell hrun).1⟩
  | error refusal => rw [hrun] at hok; cases hok

/-- An assignment on the right of a logical operator: `a && (b = 1)`. -/
def shortWrite : Json := .expressionStatement (.obj [("type", .str "LogicalExpression"), ("operator", .str "&&"),
  ("left", .ident (.str "a")), ("right", .obj [("type", .str "AssignmentExpression"), ("operator", .str "="),
    ("left", .ident (.str "b")), ("right", .literal (.int 1))])])

/-- An assignment that a completion leaves out is reported all the same. -/
theorem shortWrite_reported :
    let program (body : List Json) : Json := .obj [("type", .str "Program"), ("body", .arr body)]
    (program [shortWrite]).WellFormed ∧
      instrument (program [shortWrite]) none =
        .ok (program [shortWrite, localsStatement "assign" (.int (-1)) [.named (.str "b")]]) ∧
      ∃ p ∈ shortWrite.reported, Fields.type? p.fields = some "AssignmentExpression" ∧ p ∉ shortWrite.unconditional ∧
        p ∉ shortWrite.evaluated fun _ => false := by
  intro program
  have houtside {ps : List Part} {p : Part} (h : p.way ∉ ps.map Part.way) : p ∉ ps := fun hp => h (List.mem_map_of_mem hp)
  refine ⟨by decide +kernel, instrument_eq_ok (by decide +kernel), ?_⟩
  refine ⟨⟨[.field "expression", .field "right"], [("type", .str "AssignmentExpression"), ("operator", .str "="),
    ("left", .ident (.str "b")), ("right", .literal (.int 1))]⟩, ?_, rfl, houtside ?_, houtside ?_⟩
  · exact List.mem_singleton.2 rfl
  · decide +kernel
  · decide +kernel

end ScriptTrace
