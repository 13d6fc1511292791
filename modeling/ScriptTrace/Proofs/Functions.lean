import ScriptTrace.Proofs.Correspondence
import ScriptTrace.Proofs.Erasing
import ScriptTrace.Proofs.Weaving

/-!
# Functions and their returns

Every function of an instrumented program records its call, guards the rest of its body, and records what
its returns answer.

* `functions`, `returnsOf` : the functions of a program, and the returns that belong to a function;
* `ReturnRewritten`, `FunctionRewritten` : what becomes of a return, and of a function;
* `takeWhile_weave` : the directives of a function stay in front;
* `instrument_functions` : the functions of an instrumented program.
-/

namespace ScriptTrace

open Probe Rewriting

namespace Rewriting

def isFunction (fields : Fields Json) : Bool := (Fields.type? fields).any functionTypes.contains

def isReturn (fields : Fields Json) : Bool := Fields.type? fields == some "ReturnStatement"

/-- The functions in a program, each as the pass comes to it. -/
def functions (tree : Json) : List Landmark := (landmarks true [] none tree).filter fun l => isFunction l.fields

/-- The functions in an instrumented program. -/
def functionSites (out : Json) : List (Fields Json) := (sites true out).filter isFunction

/-- The returns in a body that do not belong to a function inside. -/
def returnsOf (body : Json) : List (Fields Json) := (sites false body).filter isReturn

/-- The record of what a return answers: once, with the line of the return, around what has become of its argument. -/
def ReturnRewritten (code : Option String) (fields out : Fields Json) : Prop :=
  ∃ classes up line argument, Node.line (.obj fields) = .ok line ∧
    Rewrites code .visited classes up (Json.field "argument" (.obj fields)) argument ∧
    Json.calls returnName argument = Json.calls returnName (Json.field "argument" (.obj fields)) ∧
    Json.field "argument" (.obj out) = wrapped returnName [.literal line] (if argument.isNull then .voidZero else argument)

/-- Whether the function is a constructor without a name of its own. -/
def IsConstructor (l : Landmark) : Prop :=
  (∃ method, l.up = some (.obj method) ∧ Fields.type? method = some "MethodDefinition" ∧
    Fields.get? "kind" method = some (.str "constructor")) ∧ (Json.field "id" (.obj l.fields)).truthy = false

/-- What becomes of a function. Its body is the directives, the record of the call, and the guard around the rest; the
rest ends with a return or with the record of one. -/
structure FunctionRewritten (code : Option String) (l : Landmark) (out : Fields Json) : Prop where
  type?_eq : Fields.type? out = Fields.type? l.fields
  body : ∃ line endLine name params ss ts block rest, Node.line (.obj l.fields) = .ok line ∧
    Node.endLine (.obj l.fields) = .ok endLine ∧ functionName l.classes (.obj l.fields) l.up = .ok name ∧
    parameterNames l.fields = .ok params ∧ (IsConstructor l → l.classes.head? = some name) ∧
    (bodyBlock (Json.field "body" (.obj l.fields))).field "body" = .arr ss ∧
    List.Forall₂ (Rewrites code .visited l.classes none) ss ts ∧
    Json.field "body" (.obj out) = .obj block ∧ Fields.type? block = some "BlockStatement" ∧
    Json.field "body" (.obj block) =
      .arr (ss.takeWhile isDirective ++ [Probe.called line name params, guarded rest endLine name]) ∧
    rest = closed ((weave ss ts).dropWhile isDirective) endLine ∧
    (rest.getLast?.bind Json.type? = some "ReturnStatement" ∨ rest.getLast? = some (Probe.returned endLine))
  returns : List.Forall₂ (ReturnRewritten code) (returnsOf (bodyBlock (Json.field "body" (.obj l.fields))))
    (returnsOf (Json.field "body" (.obj out)))

end Rewriting

/-! ## Lists that match, in part -/

theorem Matches.filter {α β : Type} {R : α → β → Prop} {E : β → Prop} {p : α → Bool} {q : β → Bool} {as : List α} {bs : List β}
    (h : Matches R E as bs) (hpair : ∀ a b, R a b → q b = p a) (hextra : ∀ b, E b → q b = false) :
    List.Forall₂ (fun a b => R a b ∧ p a = true) (as.filter p) (bs.filter q) := by
  induction h with
  | nil => exact .nil
  | @cons a b as bs hab _ ih =>
    rw [List.filter_cons, List.filter_cons, hpair a b hab]
    split
    · next hp => exact .cons ⟨hab, hp⟩ ih
    · exact ih
  | @extra b as bs hb _ ih =>
    rw [List.filter_cons, hextra b hb]
    exact ih

theorem LandmarkRewritten.type?_eq {code : Option String} {l : Landmark} {out : Fields Json} (h : LandmarkRewritten code l out) :
    Fields.type? out = Fields.type? l.fields := by
  obtain ⟨type, name, made, plain, hnode, ⟨-, rfl⟩ | ⟨key, f, statements, hkey, -, -, rfl⟩⟩ := h
  · exact hnode.type?_out.trans hnode.type.symm
  · rw [hnode.type, Fields.type?_set (ne_type_of_listKey hkey)]
    exact hnode.type?_out

theorem IsGuardBlock.type?_eq {out : Fields Json} (h : IsGuardBlock out) : Fields.type? out = some "BlockStatement" := by
  rcases h with ⟨statements, line, rfl⟩ | ⟨line, name, rfl⟩ <;> rfl

/-- A landmark that holds no list is a node as it was rewritten. -/
theorem LandmarkRewritten.exists_node {code : Option String} {l : Landmark} {out : Fields Json} {type : String}
    (h : LandmarkRewritten code l out) (htype : Fields.type? l.fields = some type) (hlist : listKey type = none) :
    ∃ name made, RewrittenNode code l.classes l.up type name l.fields made out := by
  obtain ⟨type', name, made, plain, hnode, hout⟩ := h
  cases htype.symm.trans hnode.type
  rcases hout with ⟨-, rfl⟩ | ⟨key, -, -, hkey, -⟩
  · exact ⟨name, made, hnode⟩
  · cases hlist.symm.trans hkey

/-! ## Directives -/

section Directives

variable {code : Option String} {classes : List Json} {up : Option Json} {fields : Fields Json} {type : String}

/-- Only statements that are expressions have the text of a directive. -/
theorem type_of_directive (hproper : (Json.obj fields).Proper) (htype : Fields.type? fields = some type) {directive : Json}
    (hdirective : Fields.get? "directive" fields = some directive) : type = "ExpressionStatement" := by
  have hrows : ∀ row ∈ Grammar.table, (Fields.get? "directive" row.2).isSome = true → row.1 = ["ExpressionStatement"] := by decide
  obtain ⟨slots, hshape⟩ := hproper.exists_shape htype
  obtain ⟨row, hrow, hmem, rfl⟩ := ofGroup_mem_types hshape
  obtain ⟨slot, hslot, -⟩ := hproper.fits_found htype hshape hdirective
  have hfound : (Fields.get? "directive" row.2).isSome = true := by
    rw [Grammar.slotOf, Fields.get?_append] at hslot
    cases hd : Fields.get? "directive" row.2 with
    | none => rw [hd] at hslot; cases hslot
    | some d => rfl
  rw [hrows row hrow hfound] at hmem
  exact List.mem_singleton.1 hmem

/-- A directive is a literal that stands as a statement. -/
theorem exists_literal (hproper : (Json.obj fields).Proper) (htype : Fields.type? fields = some type)
    (h : isDirective (.obj fields) = true) : type = "ExpressionStatement" ∧ ∃ literal,
      Fields.get? "expression" fields = some (.obj literal) ∧ Fields.type? literal = some "Literal" := by
  obtain ⟨directive, hdirective⟩ : ∃ v, Fields.get? "directive" fields = some v := by
    rw [isDirective, Json.field, Json.get?] at h
    cases hv : Fields.get? "directive" fields with
    | none => rw [hv] at h; cases h
    | some v => exact ⟨v, rfl⟩
  rw [isDirective, Json.field_of_get? hdirective] at h
  obtain rfl := type_of_directive hproper htype hdirective
  obtain ⟨slots, hshape⟩ := hproper.exists_shape htype
  have hconsistent := hproper.consistent htype hshape
  have hholds : (Fields.get? "expression" fields).any (Json.isOneOf ["Literal"]) = true := by
    simpa [Grammar.isConsistent, hdirective, h] using hconsistent
  obtain ⟨literal, hliteral, hone⟩ := (Option.any_eq_true _ _).1 hholds
  obtain ⟨lfields, ltype, rfl, hltype, hlmem⟩ := Json.isOneOf_iff.1 hone
  exact ⟨rfl, lfields, hliteral, List.mem_singleton.1 hlmem ▸ hltype⟩

/-- A node that is neither prepared nor framed is kept when its fields are. -/
theorem Rewrites.eq_self {w : Json} (htype : Fields.type? fields = some type) (hun : Unframed type)
    (hfields : ∀ key v w m classes up, Fields.get? key fields = some v → mode type fields key = m →
      Rewrites code m classes up v w → w = v)
    (h : Rewrites code .visited classes up (.obj fields) w) : w = .obj fields := by
  obtain ⟨name, made, out, rfl, hnode⟩ := h.exists_node htype
  have hnames : Fields.names out = Fields.names fields := by
    rw [hnode.names_out, hnode.names_made, hun.prepared_eq]
  refine congrArg Json.obj (Fields.ext hnames hnode.nodup_out fun key => ?_)
  cases hv : Fields.get? key fields with
  | none => exact Fields.get?_eq_none.2 (hnames ▸ Fields.get?_eq_none.1 hv)
  | some v =>
    obtain ⟨w, hp, hw, ho⟩ := hun.exists_child hnode.names_made hnode.names_out hnode.frame hv
    rw [ho, hfields key v w _ _ _ hv rfl (hnode.field key v w hp hw)]

/-- Fields of a literal, and of a directive but for the literal, hold no nodes. -/
theorem inert_of_literal (hproper : (Json.obj fields).Proper) (htype : Fields.type? fields = some type)
    (hmem : type ∈ ["Literal", "ExpressionStatement"]) {key : String} {v : Json} (hv : Fields.get? key fields = some v)
    (hkey : key ≠ "loc" ∧ key ≠ "range") (hexpression : type = "ExpressionStatement" → key ≠ "expression") : v.isInert = true := by
  refine hproper.inert htype hv hkey fun slots slot hshape hslot => ?_
  simp only [List.mem_cons, List.not_mem_nil, or_false] at hmem
  rcases hmem with rfl | rfl
  · have hall : ∀ s ∈ [("value", Slot.optionalValue), ("raw", .optionalText)], Json.isScalar s.2 = true := by decide
    cases hshape
    exact hall _ (Fields.mem_of_get? hslot)
  · cases hshape
    rw [Fields.get?, if_neg fun h => hexpression rfl h.symm] at hslot
    cases List.mem_singleton.1 (Fields.mem_of_get? hslot)
    rfl

theorem literal_kept (hproper : (Json.obj fields).Proper) (htype : Fields.type? fields = some "Literal") {m : Mode} {w : Json}
    (h : Rewrites code m classes up (.obj fields) w) : w = .obj fields := by
  cases m with
  | kept => cases h; rfl
  | statements => cases h
  | visited =>
    refine h.eq_self htype (by decide) fun key v w m classes up hv hm hrw => ?_
    by_cases hkey : key = "loc" ∨ key = "range"
    · have hkept : m = .kept := by
        rw [← hm]
        rcases hkey with rfl | rfl <;> simp [mode, visitedFields, ofGroup, visitTable, functionTypes, classTypes, loopTypes]
      rw [hkept] at hrw
      cases hrw
      rfl
    · exact hrw.inert (inert_of_literal hproper htype (by simp) hv (not_or.1 hkey) (by simp))

theorem writes_inert {v : Json} (h : v.isInert = true) : v.writes = [] := by
  cases v with
  | arr items =>
    rw [Json.writes_arr, List.flatMap_eq_nil_iff]
    intro x hx
    exact if_neg (by simpa using List.all_eq_true.1 h x hx)
  | obj fields => exact writes_eq_nil (by simpa [Json.isInert] using h) fun _ he => nomatch he
  | _ => rfl

/-- A node writes nothing itself when none of its fields does. -/
theorem writes_eq_nil_of_fields (htype : Fields.type? fields = some type)
    (hmem : type ∈ ["Literal", "ExpressionStatement"])
    (h : ∀ key v, Fields.get? key fields = some v → key ≠ "loc" ∧ key ≠ "range" → v.writes = []) :
    (Json.obj fields).writes = [] := by
  have hsame : sameStatement type fields = (Fields.names fields).filter fun key => !(key == "loc" || key == "range") := by
    simp only [List.mem_cons, List.not_mem_nil, or_false] at hmem
    rcases hmem with rfl | rfl <;> simp [sameStatement, visitedFields, ofGroup, visitTable, functionTypes, classTypes, loopTypes]
  have hown : ownWrites fields = [] := ownWrites_eq_nil htype (by
    simp only [List.mem_cons, List.not_mem_nil, or_false] at hmem
    rcases hmem with rfl | rfl <;> decide)
  rw [writes_obj htype, hsame, hown, List.append_nil, List.flatMap_eq_nil_iff]
  intro key hkey
  obtain ⟨hname, hother⟩ := List.mem_filter.1 hkey
  obtain ⟨v, hv⟩ := Fields.exists_get? hname
  rw [writesIn_eq hv]
  exact h key v hv (by simpa using hother)

/-- A literal that stands as a statement is kept as it is, and no records stand around it. -/
theorem literalStatement_kept (code : Option String) {literal : Fields Json} (hproper : (Json.obj fields).Proper)
    (htype : Fields.type? fields = some "ExpressionStatement") (hliteral : Fields.get? "expression" fields = some (.obj literal))
    (hltype : Fields.type? literal = some "Literal") : (Json.obj fields).declares = [] ∧ (Json.obj fields).writesAfter = [] ∧
      ∀ {classes : List Json} {up : Option Json} {w : Json},
        Rewrites code .visited classes up (.obj fields) w → w = .obj fields := by
  have hlproper := hproper.field hliteral
  have hlwrites : (Json.obj literal).writes = [] := writes_eq_nil_of_fields hltype (by simp) fun key v hv hkey =>
    writes_inert (inert_of_literal hlproper hltype (by simp) hv hkey (by simp))
  refine ⟨declares_eq_nil ?_, ?_, fun {classes up w} hrw => ?_⟩
  · rw [show (Json.obj fields).type? = some "ExpressionStatement" from htype]
    simp
  · have hwrites : (Json.obj fields).writes = [] := writes_eq_nil_of_fields htype (by simp) fun key v hv hkey => by
      by_cases hexpression : key = "expression"
      · rw [hexpression, hliteral] at hv
        cases hv
        exact hlwrites
      · exact writes_inert (inert_of_literal hproper htype (by simp) hv hkey fun _ => hexpression)
    rw [Json.writesAfter, hwrites, ite_self]
  · refine hrw.eq_self htype (by decide) fun key v w m classes up hv hm hrw => ?_
    by_cases hkey : key = "loc" ∨ key = "range"
    · have hkept : m = .kept := by
        rw [← hm]
        rcases hkey with rfl | rfl <;> simp [mode, visitedFields, ofGroup, visitTable, functionTypes, classTypes, loopTypes]
      rw [hkept] at hrw
      cases hrw
      rfl
    by_cases hexpression : key = "expression"
    · rw [hexpression, hliteral] at hv
      cases hv
      exact literal_kept hlproper hltype hrw
    · exact hrw.inert (inert_of_literal hproper htype (by simp) hv (not_or.1 hkey) fun _ => hexpression)

/-- A directive is kept as it is, and no records stand around it. -/
theorem directive_kept (code : Option String) (hproper : (Json.obj fields).Proper) (htype : Fields.type? fields = some type)
    (h : isDirective (.obj fields) = true) : (Json.obj fields).declares = [] ∧ (Json.obj fields).writesAfter = [] ∧
      ∀ {classes : List Json} {up : Option Json} {w : Json},
        Rewrites code .visited classes up (.obj fields) w → w = .obj fields := by
  obtain ⟨rfl, literal, hliteral, hltype⟩ := exists_literal hproper htype h
  exact literalStatement_kept code hproper htype hliteral hltype

/-- The directives in front of a list of statements stay where they are, without records. -/
theorem takeWhile_weave {ss ts : List Json} (h : List.Forall₂ (Rewrites code .visited classes none) ss ts)
    (hproper : ∀ s ∈ ss, s.Proper ∧ s.isNode = true) :
    (weave ss ts).takeWhile isDirective = ss.takeWhile isDirective := by
  induction h with
  | nil => rfl
  | @cons s t ss ts hst hrest ih =>
    obtain ⟨hs, hnode⟩ := hproper s List.mem_cons_self
    have ih := ih fun s hs => hproper s (List.mem_cons_of_mem _ hs)
    have hcons : weave (s :: ss) (t :: ts) = s.declares ++ t :: (s.writesAfter ++ weave ss ts) := by simp [weave]
    rw [hcons]
    cases s with
    | obj fields =>
      obtain ⟨type, htype⟩ := hs.exists_type hnode
      cases hdirective : isDirective (.obj fields) with
      | true =>
        obtain ⟨hbefore, hafter, hkept⟩ := directive_kept code hs htype hdirective
        rw [hbefore, hafter, hkept hst, List.nil_append, List.nil_append, List.takeWhile_cons, List.takeWhile_cons, hdirective, ih]
      | false =>
        have ht : isDirective t = false := by
          have hget := hst.get?_plain "directive" (by decide) (by decide)
          rw [isDirective, Json.field, hget]
          exact hdirective
        rw [List.takeWhile_cons (l := ss), hdirective]
        cases hbefore : (Json.obj fields).declares with
        | nil => rw [List.nil_append, List.takeWhile_cons, ht]; rfl
        | cons r rs =>
          obtain ⟨-, line, name, rfl⟩ := exists_of_mem_declares (hbefore ▸ List.mem_cons_self : r ∈ (Json.obj fields).declares)
          rfl
    | _ => cases hnode

end Directives

/-! ## Returns -/

section Returns

variable {code : Option String} {classes : List Json} {up : Option Json}

/-- What is tried ends with a return or with the record of one. -/
theorem getLast?_closed (statements : List Json) (line : Json) :
    (closed statements line).getLast?.bind Json.type? = some "ReturnStatement" ∨
      (closed statements line).getLast? = some (returned line) := by
  unfold closed
  split
  · next h => exact .inl h
  · exact .inr List.getLast?_concat

theorem Rewrites.isIdentifier_eq {m : Mode} {p : String → Bool} {v w : Json} (h : Rewrites code m classes up v w)
    (hm : m ≠ .statements) : w.isIdentifier p = v.isIdentifier p := by
  rw [Json.isIdentifier, Json.isIdentifier, h.type?_eq, Json.field, Json.field, h.get?_plain "name" hm (by decide)]

/-- Rewriting neither makes nor takes away a call by name, but for calls that print. -/
theorem calls_rewritten {called : String} (hne : called ≠ printName) {v w : Json} (hproper : v.Proper)
    (h : Rewrites code .visited classes up v w) : Json.calls called w = Json.calls called v := by
  cases h with
  | value => rfl
  | items => rfl
  | node _ _ type name fields made out htype _ hname hmade h hout hframe =>
    have hnode : RewrittenNode code classes up type name fields made out := ⟨htype, hproper, hname, hmade, hout, h, hframe⟩
    rw [Json.calls, Json.calls, show (Json.obj out).type? = some type from hnode.type?_out,
      show (Json.obj fields).type? = some type from htype]
    by_cases hcall : type = "CallExpression"
    · subst hcall
      obtain ⟨callee, ctype, hcallee, hctype, -⟩ := Json.fits_node (hproper.fits "callee" htype rfl rfl)
      have hcompleted : Fields.get? "callee" (completed "CallExpression" fields) = some (.obj callee) :=
        get?_completed (by decide) hcallee
      obtain ⟨o, ho⟩ := Fields.exists_get?_of_names hnode.names_completed hcompleted
      obtain ⟨w, hprepared, hw, hf⟩ := hnode.exists_made hcompleted ho
      have hrw := hnode.field _ _ _ hprepared hw
      rw [readyField_eq_self (by decide)] at hrw
      rw [Json.field_of_get? hcallee, Json.field_of_get? ho]
      refine congrArg (_ && ·) ?_
      rw [show frameKind "CallExpression" "callee" = .callee from rfl] at hf
      cases hf with
      | printer _ hprints =>
        rw [Json.field_of_get? hcallee] at hprints
        obtain ⟨rfl, -⟩ := exists_of_isConsole (hproper.field hcallee) hctype hprints
        rw [Json.isIdentifier, Json.isIdentifier, show (Json.obj callee).type? = some "MemberExpression" from hctype]
        exact beq_false_of_ne hne.symm
      | callee _ _ =>
        exact hrw.isIdentifier_eq (mode_ne_statements _ (by decide))
    · rw [beq_false_of_ne (by simpa using hcall), Bool.false_and, Bool.false_and]

/-- The argument of a return is recorded. -/
theorem RewrittenNode.returnRewritten {name : Json} {fields made out : Fields Json}
    (hnode : RewrittenNode code classes up "ReturnStatement" name fields made out) : ReturnRewritten code fields out := by
  obtain ⟨v, hv, hvfield, hvproper⟩ : ∃ v, Fields.get? "argument" (completed "ReturnStatement" fields) = some v ∧
      v = Json.field "argument" (.obj fields) ∧ v.Proper := by
    cases hget : Fields.get? "argument" fields with
    | some v => exact ⟨v, get?_completed (by decide) hget, (Json.field_of_get? hget).symm, hnode.proper.field hget⟩
    | none =>
      refine ⟨.null, ?_, ?_, rfl⟩
      · rw [completed, if_pos ⟨rfl, hget⟩, Fields.get?_append, hget]
        rfl
      · rw [Json.field, Json.get?, hget]
        rfl
  obtain ⟨o, ho⟩ := Fields.exists_get?_of_names hnode.names_completed hv
  obtain ⟨w, hprepared, hw, hf⟩ := hnode.exists_made hv ho
  have hrw := hnode.field _ _ _ hprepared hw
  have hmode : mode "ReturnStatement" fields "argument" = .visited := by
    simp [mode, visitedFields, ofGroup, visitTable, functionTypes]
  rw [readyField_eq_self (by decide), hmode] at hrw
  rw [show frameKind "ReturnStatement" "argument" = .result from rfl] at hf
  cases hf with
  | result line _ hline =>
    refine ⟨_, _, line, w, hline, hvfield ▸ hrw, hvfield ▸ calls_rewritten (by decide) hvproper hrw, Json.field_of_get? ho⟩

end Returns

/-! ## Constructors -/

section Constructors

variable {inside : Bool} {classes : List Json} {name : Json} {type key : String} {fields : Fields Json}

/-- Where a landmark of a field comes from: the field is put into it, or it is one of the value. -/
theorem mem_fieldLandmarks {v : Json} {l : Landmark} (h : l ∈ fieldLandmarks inside classes name type fields key v) :
    mode type fields key ≠ .kept ∧
      (l.classes = classesAt classes type key name ∧ (l.up = some (.obj fields) ∨ l.up = none) ∨
        ∃ up, l ∈ landmarks inside (classesAt classes type key name) up v ∧
          (up = some (.obj fields) ∨ up = none ∨ up = some (returnOf v))) := by
  unfold fieldLandmarks at h
  split at h
  · cases h
  · next hmode =>
    refine ⟨by rw [hmode]; decide, ?_⟩
    unfold Landmark.ready at h
    split at h
    · rcases List.mem_cons.1 h with rfl | h
      · exact .inl ⟨rfl, .inl rfl⟩
      · exact .inr ⟨_, h, .inr (.inl rfl)⟩
    · split at h
      · rcases List.mem_cons.1 h with rfl | h
        · exact .inl ⟨rfl, .inl rfl⟩
        rcases List.mem_cons.1 h with rfl | h
        · exact .inl ⟨rfl, .inr rfl⟩
        · exact .inr ⟨_, h, .inr (.inr rfl)⟩
      · exact .inr ⟨_, h, .inl rfl⟩
  · next hmode => exact ⟨by rw [hmode]; decide, .inr ⟨_, h, .inr (.inl rfl)⟩⟩

theorem classes_suffix_classesAt (classes : List Json) (type key : String) (name : Json) :
    classes <:+ classesAt classes type key name := by
  unfold classesAt
  split
  · exact List.suffix_cons ..
  · exact List.suffix_refl _

/-- A landmark is inside all the classes that its surroundings are inside. -/
theorem classes_suffix (j : Json) {classes : List Json} {up : Option Json} {l : Landmark} (h : l ∈ landmarks inside classes up j) :
    classes <:+ l.classes := by
  induction j using Json.ind generalizing classes up with
  | scalar j hatom => cases j <;> first | cases h | cases hatom
  | arr items ih =>
    rw [landmarks_arr] at h
    obtain ⟨x, hx, h⟩ := List.mem_flatMap.1 h
    split at h
    · exact ih x hx h
    · cases h
  | obj fields ih =>
    cases htype : Fields.type? fields with
    | none =>
      rw [landmarks, htype] at h
      cases h
    | some type =>
      rw [landmarks_obj htype] at h
      rcases List.mem_append.1 h with h | h
      · unfold Landmark.ofType at h
        split at h
        · obtain rfl := List.mem_singleton.1 h
          exact List.suffix_refl _
        · cases h
      · split at h
        · obtain ⟨f, hf, h⟩ := List.mem_flatMap.1 h
          obtain ⟨-, ⟨hclasses, -⟩ | ⟨up, h, -⟩⟩ := mem_fieldLandmarks h
          · exact hclasses ▸ classes_suffix_classesAt ..
          · exact (classes_suffix_classesAt ..).trans (ih f hf h)
        · cases h

/-- A function in a field is one in its value. -/
theorem exists_of_function {inside : Bool} {key : String} {v : Json} {l : Landmark}
    (h : l ∈ fieldLandmarks inside classes name type fields key v) (hfunction : isFunction l.fields = true) :
    ∃ classes' up', l ∈ landmarks inside classes' up' v := by
  unfold fieldLandmarks at h
  split at h
  · cases h
  · unfold Landmark.ready at h
    split at h
    · rcases List.mem_cons.1 h with rfl | h
      · cases hfunction
      · exact ⟨_, _, h⟩
    · split at h
      · rcases List.mem_cons.1 h with rfl | h
        · cases hfunction
        rcases List.mem_cons.1 h with rfl | h
        · cases hfunction
        · exact ⟨_, _, h⟩
      · exact ⟨_, _, h⟩
  · exact ⟨_, _, h⟩

/-- A function in a value is a part of it, and no part that is made. -/
theorem everyObject_function {p : Fields Json → Bool} (j : Json) {classes : List Json} {up : Option Json} {l : Landmark}
    (hevery : j.everyObject p = true) (h : l ∈ landmarks true classes up j) (hfunction : isFunction l.fields = true) :
    (Json.obj l.fields).everyObject p = true := by
  induction j using Json.ind generalizing classes up with
  | scalar j hatom => cases j <;> first | cases h | cases hatom
  | arr items ih =>
    rw [landmarks_arr] at h
    obtain ⟨x, hx, h⟩ := List.mem_flatMap.1 h
    split at h
    · exact ih x hx (Json.everyObject_arr.1 hevery x hx) h
    · cases h
  | obj fields ih =>
    cases htype : Fields.type? fields with
    | none =>
      rw [landmarks, htype] at h
      cases h
    | some type =>
      rw [landmarks_obj htype] at h
      rcases List.mem_append.1 h with h | h
      · unfold Landmark.ofType at h
        split at h
        · obtain rfl := List.mem_singleton.1 h
          exact hevery
        · cases h
      · split at h
        · obtain ⟨f, hf, h⟩ := List.mem_flatMap.1 h
          obtain ⟨classes, up, h⟩ := exists_of_function h hfunction
          exact ih f hf ((Json.everyObject_obj.1 hevery).2 f hf) h
        · cases h

/-- Types of nodes that stand in classes only. -/
def memberTypes : List String := ["ClassBody", "MethodDefinition"]

theorem member_slots : ∀ row ∈ Grammar.table, ∀ t ∈ row.1, t ≠ "ClassBody" → ∀ slot ∈ row.2, (t ∈ classTypes → slot.1 ≠ "body") →
    (∀ b ∈ memberTypes, b ∉ slot.2.types) ∧ slot.2.isPlacement = false := by decide

/-- Whether the node around is a method. -/
def IsMethod (up : Option Json) : Prop := ∃ method, up = some (.obj method) ∧ Fields.type? method = some "MethodDefinition"

/-- A landmark right below a method is inside a class. -/
theorem classes_ne_nil (j : Json) {up : Option Json} {l : Landmark} (hproper : j.Proper)
    (hmember : j.isOneOf memberTypes = false ∧ (∀ items, j = .arr items → ∀ x ∈ items, x.isOneOf memberTypes = false))
    (hup : ¬ IsMethod up) (h : l ∈ landmarks inside [] up j) (hl : IsMethod l.up) : l.classes ≠ [] := by
  induction j using Json.ind generalizing up with
  | scalar j hatom => cases j <;> first | cases h | cases hatom
  | arr items ih =>
    rw [landmarks_arr] at h
    obtain ⟨x, hx, h⟩ := List.mem_flatMap.1 h
    split at h
    · next hnode =>
      refine ih x hx (hproper.item hx) ⟨hmember.2 items rfl x hx, ?_⟩ hup h
      rintro items rfl
      cases hnode
    · cases h
  | obj fields ih =>
    cases htype : Fields.type? fields with
    | none =>
      rw [landmarks, htype] at h
      cases h
    | some type =>
      have htypes : type ≠ "ClassBody" ∧ type ≠ "MethodDefinition" := by
        have hnot := hmember.1
        rw [Json.isOneOf_obj htype] at hnot
        simpa [memberTypes] using hnot
      have hself : ¬ IsMethod (some (.obj fields)) := by
        rintro ⟨method, he, hmethod⟩
        cases he
        exact htypes.2 (Option.some.inj (htype.symm.trans hmethod))
      have hnone : ¬ IsMethod none := by
        rintro ⟨method, he, -⟩
        cases he
      rw [landmarks_obj htype] at h
      rcases List.mem_append.1 h with h | h
      · unfold Landmark.ofType at h
        split at h
        · rw [List.mem_singleton.1 h] at hl
          exact absurd hl hup
        · cases h
      · split at h
        · obtain ⟨f, hf, h⟩ := List.mem_flatMap.1 h
          obtain ⟨hvisited, ⟨-, hlup⟩ | ⟨up', h, hup'⟩⟩ := mem_fieldLandmarks h
          · rcases hlup with hlup | hlup <;> rw [hlup] at hl
            · exact absurd hl hself
            · exact absurd hl hnone
          · by_cases hclass : type ∈ classTypes ∧ f.1 = "body"
            · rw [classesAt, if_pos hclass] at h
              rintro he
              exact absurd (he ▸ classes_suffix f.2 h) (by simp)
            · rw [classesAt, if_neg hclass] at h
              have hget := Fields.get?_of_mem hproper.nodup hf
              have hposition : f.1 ≠ "loc" ∧ f.1 ≠ "range" := by
                constructor <;> intro hkey
                · exact hvisited (mode_position (.inl hkey))
                · exact hvisited (mode_position (.inr hkey))
              have hbelow : ¬ IsMethod up' := by
                rcases hup' with rfl | rfl | rfl
                · exact hself
                · exact hnone
                · rintro ⟨method, he, hmethod⟩
                  cases he
                  exact absurd (Option.some.inj hmethod) (by decide)
              refine ih f hf (hproper.field hget) (hproper.not_bound htype hposition
                (fun slots slot hshape hslot => ?_) hget) hbelow h
              obtain ⟨row, hrow, hmem, rfl⟩ := ofGroup_mem_types hshape
              exact member_slots row hrow type hmem htypes.1 (f.1, slot) (Fields.mem_of_get? hslot) fun hc hkey =>
                hclass ⟨hc, hkey⟩
        · cases h

/-- A constructor without a name of its own is named after the innermost class. -/
theorem functionName_constructor {method : Fields Json} {innermost : Json} {outer : List Json}
    (htype : Fields.type? method = some "MethodDefinition") (hkind : Fields.get? "kind" method = some (.str "constructor"))
    (hid : (Json.field "id" (.obj fields)).truthy = false) :
    functionName (innermost :: outer) (.obj fields) (some (.obj method)) = .ok innermost := by
  have hnameless : ((Fields.get? "id" fields).filter fun x => !(layer x).isNull).filter (·.truthy) = none := by
    rw [Json.field, Json.get?] at hid
    cases hv : Fields.get? "id" fields with
    | none => rfl
    | some v =>
      rw [hv] at hid
      rw [Option.filter_filter, Option.filter_some, if_neg]
      simp [show v.truthy = false from hid]
  have hconstructs : (Json.field "kind" (.obj method)).string? == some "constructor" := by
    rw [Json.field_of_get? hkind]
    rfl
  have hparent : nameFromParent (innermost :: outer) (.obj method) = .ok (some innermost) := by
    rw [nameFromParent, Json.hasType_json htype, Json.hasType_json htype, Json.hasType_json htype, hconstructs]
    rfl
  rw [functionName, layer_json_obj, Layer.optional, ok_bind, hnameless, hparent]
  rfl

end Constructors

/-! ## Functions -/

section Functions

variable {code : Option String}

theorem isReturn_iff {fields : Fields Json} : isReturn fields = true ↔ Fields.type? fields = some "ReturnStatement" := beq_iff_eq

/-- The returns of a function are those of its body as it was, each recorded. -/
theorem returns_rewritten {j w : Json} {classes : List Json} {up : Option Json}
    (h : Matches (LandmarkRewritten code) IsGuardBlock (landmarks false classes up j) (sites false w)) :
    List.Forall₂ (ReturnRewritten code) (returnsOf j) (returnsOf w) := by
  have hreturns := h.filter (p := fun l => isReturn l.fields) (q := isReturn) (fun l out hl => by rw [isReturn, isReturn, hl.type?_eq])
    fun out ho => by rw [isReturn, ho.type?_eq]; rfl
  rw [returnsOf, ← map_landmarks false classes up j, List.filter_map, List.forall₂_map_left_iff]
  refine hreturns.imp fun l out hl => ?_
  obtain ⟨name, made, hnode⟩ := hl.1.exists_node (isReturn_iff.1 hl.2) (by decide)
  exact hnode.returnRewritten

/-- A landmark that is a function, as it was rewritten. -/
theorem LandmarkRewritten.exists_functionNode {l : Landmark} {out : Fields Json} (h : LandmarkRewritten code l out)
    (hfunction : isFunction l.fields = true) : ∃ type name made, type ∈ functionTypes ∧
      RewrittenNode code l.classes l.up type name l.fields made out := by
  obtain ⟨type, htype, hmem⟩ := (Option.any_eq_true _ _).1 hfunction
  have hmem : type ∈ functionTypes := by simpa using hmem
  have hlist : ∀ t ∈ functionTypes, listKey t = none := by decide
  obtain ⟨name, made, hnode⟩ := h.exists_node htype (hlist type hmem)
  exact ⟨type, name, made, hmem, hnode⟩

theorem LandmarkRewritten.functionRewritten {l : Landmark} {out : Fields Json} (h : LandmarkRewritten code l out)
    (hfunction : isFunction l.fields = true) (hclasses : IsMethod l.up → l.classes ≠ []) : FunctionRewritten code l out := by
  obtain ⟨type, cname, made, hmem, hnode⟩ := h.exists_functionNode hfunction
  have htype := hnode.type
  have hkind : frameKind type "body" = .function ∧ mode type l.fields "body" = .visited ∧ type ∉ classTypes := by
    simp only [functionTypes, List.mem_cons, List.not_mem_nil, or_false] at hmem
    rcases hmem with rfl | rfl | rfl
    all_goals exact ⟨rfl, by simp [mode, visitedFields, ofGroup, visitTable, functionTypes], by decide⟩
  obtain ⟨hkind, hmode, hclass⟩ := hkind
  obtain ⟨body, hbody, -⟩ := exists_body hnode.proper htype hmem
  have hcompleted : Fields.get? "body" (completed type l.fields) = some (.obj body) :=
    (get?_completed_of_ne (by decide)).trans hbody
  obtain ⟨-, block, hready, hbtype⟩ := exists_block_of_body hnode.proper htype (by rw [hkind]; simp) hcompleted
  obtain ⟨o, ho⟩ := Fields.exists_get?_of_names hnode.names_completed hcompleted
  obtain ⟨w, hprepared, hw, hframe⟩ := hnode.exists_made hcompleted ho
  have hrw := hnode.field _ _ _ hprepared hw
  rw [hready, hmode, classesAt, if_neg fun h => hclass h.1] at hrw
  rw [readyField_function hmem] at hready
  obtain ⟨bname, bmade, plain, rfl, hbnode⟩ := hrw.exists_node hbtype
  obtain ⟨ss, ts, hss, hts, hstatements⟩ := hbnode.exists_weave "body" rfl
  have hreturns : Matches (LandmarkRewritten code) IsGuardBlock (landmarks false l.classes (some (.obj l.fields)) (.obj block))
      (sites false o) :=
    hnode.body_match hframe (by rw [hkind]; simp) hbtype hrw ((hrw.landmarks_match (by decide)).2 hbtype)
  have hreturns := returns_rewritten hreturns
  rw [hkind] at hframe
  cases hframe with
  | function line endLine name _ params hline hend hname hparams =>
    rw [onList_obj _ hts] at ho hreturns
    have hproper : ∀ s ∈ ss, s.Proper ∧ s.isNode = true := by
      obtain ⟨-, ss', hss', hnodes⟩ := exists_list "body" hbnode.proper hbtype rfl
      cases hss.symm.trans hss'
      exact fun s hs => ⟨(hbnode.proper.field hss).item hs, hnodes s hs⟩
    have hconstructor : IsConstructor l → l.classes.head? = some name := by
      rintro ⟨⟨method, hup, hmethod, hkind⟩, hid⟩
      obtain ⟨innermost, outer, houter⟩ := List.exists_cons_of_ne_nil (hclasses ⟨method, hup, hmethod⟩)
      rw [houter, hup, functionName_constructor hmethod hkind hid] at hname
      rw [houter, Except.ok.inj hname]
      rfl
    refine ⟨hnode.type?_out.trans htype.symm, ⟨line, endLine, name, params, ss, ts, _, _, hline, hend, hname, hparams, hconstructor,
      ?_, hstatements, Json.field_of_get? ho, ?_, ?_, rfl, getLast?_closed _ _⟩, ?_⟩
    · rw [Json.field_of_get? hbody, hready, Json.field_of_get? hss]
    · rw [Fields.type?_set (by decide)]
      exact hbnode.type?_out
    · rw [Json.field_of_get? (by rw [Fields.get?_set, if_pos rfl]), functionBody, takeWhile_weave hstatements hproper]
    · rwa [Json.field_of_get? hbody, hready, Json.field_of_get? ho]

/-- A method of a program is inside a class. -/
theorem classes_of_method {tree : Json} (h : tree.WellFormed) {l : Landmark} (hl : l ∈ functions tree) (hmethod : IsMethod l.up) :
    l.classes ≠ [] := by
  obtain ⟨htype, hproper⟩ := h
  have hmember : tree.isOneOf memberTypes = false ∧ ∀ items, tree = .arr items → ∀ x ∈ items, x.isOneOf memberTypes = false := by
    refine ⟨by rw [Json.isOneOf, htype]; rfl, ?_⟩
    rintro items rfl
    cases htype
  exact classes_ne_nil tree hproper hmember (by rintro ⟨method, he, -⟩; cases he) (List.mem_filter.1 hl).1 hmethod

/-- The functions of an instrumented program are those of the program as they were rewritten. -/
theorem functions_rewritten {tree out : Json} (h : tree.WellFormed) (hrun : instrument tree code = .ok out) :
    List.Forall₂ (fun l out => l ∈ functions tree ∧ LandmarkRewritten code l out) (functions tree) (functionSites out) := by
  have hmatch := (instrument_landmarks h hrun true).filter (p := fun l => isFunction l.fields) (q := isFunction)
    (fun l out hl => by rw [isFunction, isFunction, hl.type?_eq]) fun out ho => by rw [isFunction, ho.type?_eq]; rfl
  obtain ⟨hlength, hzip⟩ := List.forall₂_iff_zip.1 hmatch
  exact List.forall₂_iff_zip.2 ⟨hlength, fun {l out} hmem => ⟨(List.of_mem_zip hmem).1, (hzip hmem).1⟩⟩

end Functions

/-- Every function of a program is found again in the instrumented program, with its body guarded and its returns recorded. -/
theorem instrument_functions {tree out : Json} {code : Option String} (h : tree.WellFormed)
    (hrun : instrument tree code = .ok out) :
    List.Forall₂ (FunctionRewritten code) (functions tree) (functionSites out) :=
  (functions_rewritten h hrun).imp fun _ _ ⟨hl, hrewritten⟩ =>
    hrewritten.functionRewritten (List.mem_filter.1 hl).2 (classes_of_method h hl)

theorem instrument_functions_echo : echoProgram.WellFormed ∧ ∃ out, instrument echoProgram none = .ok out ∧
    List.Forall₂ (FunctionRewritten none) (functions echoProgram) (functionSites out) := by
  have hwell : echoProgram.WellFormed := by decide +kernel
  have hok : (instrument echoProgram none).isOk = true := by decide +kernel
  refine ⟨hwell, ?_⟩
  cases hrun : instrument echoProgram none with
  | ok out => exact ⟨out, rfl, instrument_functions hwell hrun⟩
  | error refusal => rw [hrun] at hok; cases hok

end ScriptTrace
