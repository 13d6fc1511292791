import ScriptTrace.Proofs.Correspondence

/-!
# Records stay with their statements

The records around the statements of a list are told by the statements as they were written: the pass's
queues carry none from one statement to another, nor out of a function, a nested list or a loop's header.

* `statementLists`, `writtenLists` : the lists of statements of a program, each as the pass comes to it, and those of a
  program that is rewritten;
* `ListRewritten` : a list with each statement rewritten, between the records of that statement;
* `instrument_statementLists` : the lists of an instrumented program.
-/

namespace ScriptTrace

open Probe Rewriting

/-- The list of statements that a node holds, if it holds one. -/
def listOf (fields : Fields Json) : List (List Json) :=
  ((Fields.type? fields).bind listKey).toList.map fun key => (Json.field key (.obj fields)).items

/-- A list of statements as the pass comes to it: the classes around it, and the node around the one that holds it. -/
structure StatementList where
  classes : List Json
  around : Option Json
  statements : List Json

/-- The lists of statements in a program, branches and bodies made blocks. -/
def statementLists (j : Json) : List StatementList :=
  (landmarks true [] none j).flatMap fun l => (listOf l.fields).map (⟨l.classes, l.up, ·⟩)

/-- The lists of statements in a program that is rewritten. -/
def writtenLists (j : Json) : List (List Json) := (sites true j).flatMap listOf

/-- What becomes of a list of statements. The records around a statement are those of the statement as it was written,
and nothing else is put into the list, unless it is the body of a loop or a function. -/
def ListRewritten (code : Option String) (l : StatementList) (out : List Json) : Prop :=
  ∃ ts f, List.Forall₂ (Rewrites code .visited l.classes none) l.statements ts ∧ BodyFrame code l.classes l.around f ∧
    out = f (weave l.statements ts)

/-- The lists of a guard: what is tried, and the handler. -/
def IsGuardList (out : List Json) : Prop :=
  (∃ statements line, out = closed statements line) ∨
    ∃ line name, out = [thrown line name, .obj [("type", .str "ThrowStatement"), ("argument", .ident (.str caughtName))]]

section Lists

variable {code : Option String} {classes : List Json} {up : Option Json} {type : String} {name : Json}
  {fields made out : Fields Json}

theorem listOf_eq (type key : String) (htype : Fields.type? fields = some type) (hkey : listKey type = some key) :
    listOf fields = [(Json.field key (.obj fields)).items] := by
  rw [listOf, htype, Option.bind_some, hkey]
  rfl

theorem listOf_eq_nil (htype : Fields.type? fields = some type) (hkey : listKey type = none) : listOf fields = [] := by
  rw [listOf, htype, Option.bind_some, hkey]
  rfl

/-- The list of a rewritten landmark. -/
theorem LandmarkRewritten.listOf_match {l : Landmark} (h : LandmarkRewritten code l out) :
    Matches (ListRewritten code) IsGuardList ((listOf l.fields).map (⟨l.classes, l.up, ·⟩)) (listOf out) := by
  obtain ⟨type, name, made, plain, hnode, ⟨hkey, rfl⟩ | ⟨key, f, statements, hkey, hf, hstatements, rfl⟩⟩ := h
  · rw [listOf_eq_nil hnode.type hkey, listOf_eq_nil hnode.type?_out hkey]
    exact .nil
  · obtain ⟨ss, ts, hss, hts, hrw⟩ := hnode.exists_weave key hkey
    obtain rfl : statements = weave ss ts := by
      cases hts.symm.trans hstatements
      rfl
    have htype : Fields.type? (Fields.set key (.arr (f (weave ss ts))) plain) = some type :=
      (Fields.type?_set (ne_type_of_listKey hkey) _ plain).trans hnode.type?_out
    rw [listOf_eq type key hnode.type hkey, Json.field_of_get? hss, listOf_eq type key htype hkey,
      Json.field_of_get? (by rw [Fields.get?_set, if_pos rfl])]
    exact .cons ⟨ts, f, hrw, hf, rfl⟩ .nil

end Lists

theorem IsGuardBlock.listOf_match {α : Type} {R : α → List Json → Prop} {out : Fields Json} (h : IsGuardBlock out) :
    Matches R IsGuardList [] (listOf out) := by
  rcases h with ⟨statements, line, rfl⟩ | ⟨line, name, rfl⟩
  · exact .extra (.inl ⟨statements, line, rfl⟩) .nil
  · exact .extra (.inr ⟨line, name, rfl⟩) .nil

/-- Every list of statements of a program is found again in the instrumented program, with the records of each
statement around it, those of the loop or function that it is the body of, and no others. -/
theorem instrument_statementLists {tree out : Json} {code : Option String} (h : tree.WellFormed)
    (hrun : instrument tree code = .ok out) :
    Matches (ListRewritten code) IsGuardList (statementLists tree) (writtenLists out) :=
  (instrument_landmarks h hrun true).flatMap (fun _ _ hl => hl.listOf_match) fun _ ho => ho.listOf_match

theorem instrument_statementLists_echo : echoProgram.WellFormed ∧ ∃ out, instrument echoProgram none = .ok out ∧
    Matches (ListRewritten none) IsGuardList (statementLists echoProgram) (writtenLists out) := by
  have hwell : echoProgram.WellFormed := by decide +kernel
  have hok : (instrument echoProgram none).isOk = true := by decide +kernel
  refine ⟨hwell, ?_⟩
  cases hrun : instrument echoProgram none with
  | ok out => exact ⟨out, rfl, instrument_statementLists hwell hrun⟩
  | error refusal => rw [hrun] at hok; cases hok

end ScriptTrace
