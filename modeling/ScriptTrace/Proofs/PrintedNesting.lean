import Mathlib.Data.List.TakeWhile
import ScriptTrace.Proofs.ExpressionFronts
import ScriptTrace.Proofs.SoundPrinting
import ScriptTrace.Proofs.StatementReading

/-!
# The nesting of printed statements

An `else` behind a branch in braces stays with its `if`. Braces are put around a branch only where it is itself what an
`if` leads to: behind a loop, a label or an `else` the branch stands bare, and takes an `else` that is not its own.

* `worded_of_front` : the text of an expression statement is told from the other statements;
* `StatementTree` : the trees of such statements; `Shows` : how a tree is nested, and the texts in it;
* `StatementTree.spelled` : the text of a tree spells its nesting;
* `printed_nesting` : what is read of the text, and when that is the nesting of the tree;
* `else_taken_in_loop` : an `else` that is read as that of a branch in a loop.
-/

namespace ScriptTrace

/-! ## Expressions are told from other statements -/

section Words

open Alphabet

variable {A : Alphabet} {access : Prop} {cs k rest u : List Char} {c : Char} {text : String}

/-- Whether no colon comes next, with one space in front at most. -/
def hidesColon : List Char → Bool
  | ' ' :: c :: _ => c != ':' && !isGap c
  | c :: _ => c != ':' && !isGap c
  | [] => false

theorem after?_colon (h : hidesColon rest = true) : A.after? (.sign ":") (rest ++ u) = none := by
  have hhead {c : Char} {cs : List Char} (h : (c != ':' && !isGap c) = true) : A.after? (.sign ":") (c :: cs) = none := by
    rw [Bool.and_eq_true, bne_iff_ne, Bool.not_eq_true'] at h
    refine after?_of_head (isSpace_of_not_gap h.2) (fun he => h.1 ?_) (by decide)
    exact (Option.some.inj he).symm
  unfold hidesColon at h
  split at h
  · rw [List.cons_append, after?_space rfl]
    exact hhead h
  · exact hhead h
  · cases h

/-- A text that begins with no letter does not begin with a label. -/
theorem label?_of_head (hspace : A.isSpace c = false) (hstart : A.isStart c = false) : A.label? (c :: cs) = none := by
  have hdrop : (c :: cs).dropWhile A.isSpace = c :: cs := dropWhile_space (by rintro _ ⟨⟩; exact hspace)
  simp only [label?, hdrop, List.head?_cons, Option.any_some, hstart, Bool.false_and]
  rfl

/-- A text whose first word is reserved or has no colon behind it does not begin with a label. -/
theorem label?_of_word (hspace : ∀ c ∈ (k ++ rest).head?, A.isSpace c = false) (hk : ∀ c ∈ k, A.isPart c = true)
    (hrest : ∀ c ∈ rest.head?, A.isPart c = false)
    (h : String.ofList k ∈ reservedWords ∨ A.after? (.sign ":") rest = none) : A.label? (k ++ rest) = none := by
  obtain ⟨htake, hbehind⟩ := word_span hk hrest
  simp only [label?, dropWhile_space hspace, htake, hbehind]
  rcases h with hreserved | hnone
  · rw [List.contains_iff_mem.2 hreserved, Bool.not_true, Bool.and_false]
    rfl
  · rw [hnone, Option.map_none, ite_self]

/-- Whether a word or a sign that an expression begins with is not that of a label. -/
def isNoLabel (w : String) : Bool :=
  let k := w.toList.takeWhile ascii.isPart
  let rest := w.toList.dropWhile ascii.isPart
  w.toList.all (·.toNat < 128) && !rest.isEmpty && (reservedWords.contains (String.ofList k) || hidesColon rest)

theorem label?_of_isNoLabel {w : String} (h : isNoLabel w = true) (hspace : ∀ c ∈ (w.toList ++ u).head?, A.isSpace c = false) :
    A.label? (w.toList ++ u) = none := by
  simp only [isNoLabel, Bool.and_eq_true, Bool.not_eq_true', Bool.or_eq_true, List.all_eq_true, decide_eq_true_eq] at h
  obtain ⟨⟨hascii, hne⟩, hcases⟩ := h
  have hsplit : w.toList ++ u = w.toList.takeWhile ascii.isPart ++ (w.toList.dropWhile ascii.isPart ++ u) := by
    rw [← List.append_assoc, List.takeWhile_append_dropWhile]
  rw [hsplit] at hspace ⊢
  refine label?_of_word hspace (fun c hc => ?_) (fun c hc => ?_) (hcases.imp List.contains_iff_mem.1 after?_colon)
  · rw [isPart_ascii (hascii c ((List.takeWhile_prefix _).subset hc))]
    exact List.mem_takeWhile_imp hc
  · have hnot := List.head?_dropWhile_not ascii.isPart w.toList
    cases hrest : w.toList.dropWhile ascii.isPart with
    | nil => rw [hrest] at hne; cases hne
    | cons d ds =>
      rw [hrest] at hc hnot
      cases hc
      rw [isPart_ascii (hascii c ((List.dropWhile_suffix _).subset (hrest ▸ List.mem_cons_self ..)))]
      exact hnot

/-- No expression begins with a label, but for what would be read as a function or a class. -/
theorem Front.label?_none (h : Front A access cs) (hword : ∀ w ∈ ["function", "class"], ¬ w.toList <+: cs) :
    A.label? cs = none := by
  obtain ⟨c, t, hcs, -, hspace⟩ := h.head
  have hplain : ∀ c ∈ cs.head?, A.isSpace c = false := by
    rw [hcs]
    rintro _ ⟨⟩
    exact hspace
  have hname {u : List Char} (hu : followsName u = true) : A.after? (.sign ":") u = none := by
    refine Option.eq_none_iff_forall_ne_some.2 fun rest hafter => ?_
    obtain ⟨hhead, -⟩ := after?_of_followsName hu hafter (by decide) (by decide)
    cases hhead
  cases h with
  | @own w t hw =>
    have hall : ∀ w ∈ frontWords, w ∈ ["function", "class"] ∨ isNoLabel w = true := by decide
    rcases hall w hw with hmem | hno
    · exact absurd (List.prefix_append _ _) (hword w hmem)
    · exact label?_of_isNoLabel hno hplain
  | @literal d t hd =>
    have hall : ∀ d ∈ "0123456789\"'.-/".toList, d.toNat < 128 ∧ ascii.isStart d = false := List.all_iff_forall_prop.1 (by decide)
    obtain ⟨hascii, hstart⟩ := hall d (List.contains_iff_mem.1 hd)
    exact label?_of_head (hplain d rfl) (by rw [isStart, if_pos hascii]; rw [isStart, if_pos hascii] at hstart; exact hstart)
  | @word w u hw hu =>
    have hparts : ∀ w ∈ loneWords, w.toList.all (fun c => decide (c.toNat < 128) && ascii.isPart c) = true := by decide
    exact label?_of_word hplain (isPart_of_all (hparts w hw)) (not_part_of_followsName hu) (.inr (hname hu))
  | @name n u hproper hreserved hu haccess =>
    exact label?_of_word hplain hproper.word_chars.2 (not_part_of_followsName hu) (.inr (hname hu))
  | @operand w d t hw hcolon hd =>
    have hnone : A.after? (.sign ":") (' ' :: d :: t) = none := by
      rw [after?_space rfl]
      exact after?_of_head hd (fun he => hcolon (Option.some.inj he).symm) (by decide)
    rcases List.mem_pair.1 hw with rfl | rfl
    · change A.label? ("await".toList ++ ' ' :: d :: t) = none
      exact label?_of_word hplain (isPart_of_all (by decide)) (by rintro _ ⟨⟩; rfl) (.inr hnone)
    · change A.label? ("yield".toList ++ ' ' :: d :: t) = none
      exact label?_of_word hplain (isPart_of_all (by decide)) (by rintro _ ⟨⟩; rfl) (.inr hnone)

/-- The text of an expression statement is told from those of other statements. -/
theorem worded_of_front (hfront : ∀ u, Front A access (text.toList ++ ';' :: u))
    (hstarts : Printable.startsAmbiguously text = false) : (Shape.expression text).Worded A := by
  intro u
  obtain ⟨c, t, hcs, hnever, hspace⟩ := (hfront u).head
  refine ⟨fun t ht => ?_, (hfront u).label?_none fun w hw => not_prefix_of_starts hstarts ?_, ?_⟩
  · rcases statementTokens_cases ht with ⟨sign, hsign, rfl⟩ | ⟨word, hword, rfl⟩
    · have hall : ∀ sign ∈ statementSigns, sign ≠ "" ∧ (sign ∈ Printable.ambiguousStarts ∧ sign.toList.length = 1 ∨
          sign.toList.head?.any neverFirst.contains = true) := by decide
      obtain ⟨hne, hcases⟩ := hall sign hsign
      rw [hcs]
      refine after?_of_head hspace (fun he => ?_) hne
      obtain ⟨ds, hds⟩ := List.head?_eq_some_iff.1 (show sign.toList.head? = some c from he)
      rcases hcases with ⟨hstart, hlength⟩ | hfirst
      · rw [hds, List.length_cons, Nat.succ.injEq, List.length_eq_zero_iff] at hlength
        refine not_prefix_of_starts hstarts hstart (u := u) ?_
        rw [hds, hlength, hcs]
        exact List.cons_prefix_cons.2 ⟨rfl, List.nil_prefix⟩
      · rw [hds, List.head?_cons, Option.any_some] at hfirst
        exact hnever (List.contains_iff_mem.1 hfirst)
    · have hall : ∀ word ∈ statementWords, isToldApart word = true ∧ frontWords.filter (meets word) = [] ∧ word ∈ reservedWords := by
        decide
      obtain ⟨hapart, hmeets, hreserved⟩ := hall word hword
      exact Option.eq_none_iff_forall_ne_some.2 fun _ hafter => ((hfront u).name_of_after? hapart hmeets hafter).1 hreserved
  · have hall : ∀ w ∈ ["function", "class"], w ∈ Printable.ambiguousStarts := by decide
    exact hall w hw
  · rw [hcs]
    exact dropWhile_space (by rintro _ ⟨⟩; exact hspace)

end Words

/-! ## The nesting of a tree -/

open Printable

/-- The word that a loop with a head begins with. -/
def loopWord? : String → Option LoopWord
  | "WhileStatement" => some .whileWord
  | "ForStatement" | "ForInStatement" | "ForOfStatement" => some .forWord
  | _ => none

/-- The text of the test of a branch or a loop. -/
def branchTest (place : Place) (l : Layer Printable) : Except Fault String := do
  (← l.require "test").expressionText place .sequence

/-- The text in the head of a loop over items or names. -/
def eachHead (word : String) (required : Precedence) (place : Place) (l : Layer Printable) : Except Fault String := do
  let target ← loopTarget place (← l.require "left")
  let source ← (← l.require "right").expressionText place required
  return target ++ word ++ source

/-- The text in the head of a loop. -/
def loopHead (type : String) (place : Place) (l : Layer Printable) : Except Fault String :=
  match type with
  | "ForStatement" => do
    let init ← loopInit place.head l
    let test ← optionalExpression place "test" l
    let update ← optionalExpression place "update" l
    return (← asText init) ++ "; " ++ (← asText test) ++ "; " ++ (← asText update)
  | "ForInStatement" => eachHead " in " .sequence place l
  | "ForOfStatement" => eachHead " of " .assign place l
  | _ => branchTest place l

/-- The loops with a head are printed alike. -/
theorem statementOf_loop {type : String} {word : LoopWord} (h : loopWord? type = some word) (place : Place) (l : Layer Printable) :
    statementOf type place l = do
      let head ← loopHead type place l
      let body ← nested place (← l.require "body")
      return word.text ++ " (" ++ head ++ ")" ++ body := by
  unfold loopWord? at h
  split at h
  · cases h
    simp [statementOf, whileLoop, loopHead, branchTest, LoopWord.text, bind_assoc, String.append_assoc]
  · cases h
    simp [statementOf, countedLoop, loopHead, LoopWord.text, bind_assoc, String.append_assoc]
  · cases h
    simp [statementOf, eachLoop, loopHead, eachHead, LoopWord.text, bind_assoc, String.append_assoc]
  · cases h
    simp [statementOf, eachLoop, loopHead, eachHead, LoopWord.text, bind_assoc, String.append_assoc]
  · cases h

/-- The statements built of branches, loops, labels, blocks and expressions. -/
inductive StatementTree : Json → Prop
  | empty {fields : Fields Json} : Fields.type? fields = some "EmptyStatement" → StatementTree (.obj fields)
  | expression {fields : Fields Json} : Fields.type? fields = some "ExpressionStatement" →
    (Json.field "directive" (.obj fields)).truthy = false → StatementTree (.obj fields)
  | directive {fields literal : Fields Json} {text : String} : Fields.type? fields = some "ExpressionStatement" →
    Fields.get? "directive" fields = some (.str text) → text ≠ "" → Fields.get? "expression" fields = some (.obj literal) →
    Fields.type? literal = some "Literal" → StatementTree (.obj fields)
  | block {fields : Fields Json} {items : List Json} : Fields.type? fields = some "BlockStatement" →
    Fields.get? "body" fields = some (.arr items) → (∀ s ∈ items, StatementTree s) → StatementTree (.obj fields)
  | branch {fields : Fields Json} {yes : Json} : Fields.type? fields = some "IfStatement" →
    Fields.get? "consequent" fields = some yes → (Json.field "alternate" (.obj fields)).isNull = true → StatementTree yes →
    StatementTree (.obj fields)
  | choice {fields : Fields Json} {yes no : Json} : Fields.type? fields = some "IfStatement" →
    Fields.get? "consequent" fields = some yes → Fields.get? "alternate" fields = some no → StatementTree yes →
    StatementTree no → StatementTree (.obj fields)
  | loop {fields : Fields Json} {type : String} {word : LoopWord} {body : Json} : Fields.type? fields = some type →
    loopWord? type = some word → Fields.get? "body" fields = some body → StatementTree body → StatementTree (.obj fields)
  | doLoop {fields : Fields Json} {body : Json} : Fields.type? fields = some "DoWhileStatement" →
    Fields.get? "body" fields = some body → StatementTree body → StatementTree (.obj fields)
  | labelled {fields label : Fields Json} {body : Json} : Fields.type? fields = some "LabeledStatement" →
    Fields.get? "label" fields = some (.obj label) → Fields.type? label = some "Identifier" →
    Fields.get? "body" fields = some body → StatementTree body → StatementTree (.obj fields)

/-- Where a statement behind a head is printed: one of some types on the same line, another a level deeper. -/
def Place.behind (place : Place) (types : List String) (j : Json) : Place :=
  if j.isOneOf types then place else place.deeper

/-- The statement is nested so, with the texts that are printed for its tests, heads and expressions. -/
inductive Shows : Place → Json → Shape → Prop
  | empty {place : Place} {fields : Fields Json} : Fields.type? fields = some "EmptyStatement" → Shows place (.obj fields) .empty
  | expression {place : Place} {fields : Fields Json} {text : String} : Fields.type? fields = some "ExpressionStatement" →
    expressionStatement place (printed fields) = .ok (text ++ ";") → Shows place (.obj fields) (.expression text)
  | block {place : Place} {fields : Fields Json} {items : List Json} {body : List Shape} :
    Fields.type? fields = some "BlockStatement" → Fields.get? "body" fields = some (.arr items) →
    items.length = body.length → (∀ p ∈ items.zip body, Shows place.deeper p.1 p.2) → Shows place (.obj fields) (.block body)
  | branch {place : Place} {fields : Fields Json} {v : Json} {test : String} {yes : Shape} :
    Fields.type? fields = some "IfStatement" → branchTest place (printed fields) = .ok test →
    Fields.get? "consequent" fields = some v → (Json.field "alternate" (.obj fields)).isNull = true →
    Shows (place.behind ["BlockStatement"] v) v yes → Shows place (.obj fields) (.branch test yes)
  | choice {place : Place} {fields : Fields Json} {v w : Json} {test : String} {yes no : Shape} :
    Fields.type? fields = some "IfStatement" → branchTest place (printed fields) = .ok test →
    Fields.get? "consequent" fields = some v → Fields.get? "alternate" fields = some w →
    Shows (place.behind ["BlockStatement"] v) v yes → Shows (place.behind ["BlockStatement", "IfStatement"] w) w no →
    Shows place (.obj fields) (.choice test yes no)
  | loop {place : Place} {fields : Fields Json} {type : String} {word : LoopWord} {v : Json} {head : String} {body : Shape} :
    Fields.type? fields = some type → loopWord? type = some word → loopHead type place (printed fields) = .ok head →
    Fields.get? "body" fields = some v → Shows (place.behind ["BlockStatement"] v) v body →
    Shows place (.obj fields) (.loop word head body)
  | doLoop {place : Place} {fields : Fields Json} {v : Json} {test : String} {body : Shape} :
    Fields.type? fields = some "DoWhileStatement" → branchTest place (printed fields) = .ok test →
    Fields.get? "body" fields = some v → Shows (place.behind ["BlockStatement"] v) v body →
    Shows place (.obj fields) (.doLoop body test)
  | labelled {place : Place} {fields label : Fields Json} {v : Json} {name : String} {body : Shape} :
    Fields.type? fields = some "LabeledStatement" → Fields.get? "label" fields = some (.obj label) →
    Fields.get? "name" label = some (.str name) → Fields.get? "body" fields = some v → Shows place v body →
    Shows place (.obj fields) (.labelled name body)

theorem Shows.exists_type {place : Place} {j : Json} {s : Shape} (h : Shows place j s) :
    ∃ fields type, j = .obj fields ∧ Fields.type? fields = some type := by
  cases h with
  | _ htype => exact ⟨_, _, rfl, htype⟩

/-- The nesting of a statement is determined by the tree. By induction over it: its type tells the form. -/
theorem Shows.unique {place : Place} {j : Json} {s s' : Shape} (h : Shows place j s) (h' : Shows place j s') : s = s' := by
  have hsame {fields : Fields Json} {key : String} {v w : Json} (hv : Fields.get? key fields = some v)
      (hw : Fields.get? key fields = some w) : v = w := Option.some.inj (hv.symm.trans hw)
  have hclash {fields : Fields Json} {a b : String} (ha : Fields.type? fields = some a) (hb : Fields.type? fields = some b)
      (hne : a ≠ b) : False := hne (Option.some.inj (ha.symm.trans hb))
  have hloop {fields : Fields Json} {a b : String} {word : LoopWord} (ha : Fields.type? fields = some a)
      (hb : Fields.type? fields = some b) (hword : loopWord? b = some word) (hne : loopWord? a = none) : False := by
    cases ha.symm.trans hb
    cases hne.symm.trans hword
  -- the two forms of a branch differ in whether there is an alternate
  have halternate {fields : Fields Json} {place : Place} {w : Json} {no : Shape}
      (hnull : (Json.field "alternate" (.obj fields)).isNull = true) (hno : Fields.get? "alternate" fields = some w)
      (hshows : Shows place w no) : False := by
    obtain ⟨_, _, rfl, -⟩ := hshows.exists_type
    rw [Json.field_of_get? hno] at hnull
    cases hnull
  induction h generalizing s' with
  | empty htype =>
    cases h' with
    | empty => rfl
    | loop htype' hword => exact (hloop htype htype' hword rfl).elim
    | _ htype' => exact (hclash htype htype' (by decide)).elim
  | expression htype htext =>
    cases h' with
    | expression _ htext' =>
      have htexts := congrArg String.toList (Except.ok.inj (htext.symm.trans htext'))
      rw [String.toList_append, String.toList_append] at htexts
      exact congrArg Shape.expression (String.toList_inj.1 (List.append_cancel_right htexts))
    | loop htype' hword => exact (hloop htype htype' hword rfl).elim
    | _ htype' => exact (hclash htype htype' (by decide)).elim
  | @block place fields items body htype hitems hlength _ ih =>
    cases h' with
    | @block _ _ items' body' _ hitems' hlength' hall' =>
      cases hsame hitems hitems'
      refine congrArg Shape.block (List.ext_getElem (hlength.symm.trans hlength') fun i hi hi' => ?_)
      have hmem {ss : List Shape} (hi : i < ss.length) (hlength : items.length = ss.length) :
          (items[i], ss[i]) ∈ items.zip ss := by
        have hzip : i < (items.zip ss).length := by
          rw [List.length_zip]
          omega
        exact List.getElem_zip ▸ List.getElem_mem hzip
      exact ih _ (hmem hi hlength) (hall' _ (hmem hi' hlength'))
    | loop htype' hword => exact (hloop htype htype' hword rfl).elim
    | _ htype' => exact (hclash htype htype' (by decide)).elim
  | branch htype htest hyes hnull _ ih =>
    cases h' with
    | branch _ htest' hyes' _ hyesShows =>
      cases Except.ok.inj (htest.symm.trans htest')
      cases hsame hyes hyes'
      exact congrArg _ (ih hyesShows)
    | choice _ _ _ hno _ hnoShows => exact (halternate hnull hno hnoShows).elim
    | loop htype' hword => exact (hloop htype htype' hword rfl).elim
    | _ htype' => exact (hclash htype htype' (by decide)).elim
  | choice htype htest hyes hno _ hnoShows ihyes ihno =>
    cases h' with
    | choice _ htest' hyes' hno' hyesShows hnoShows =>
      cases Except.ok.inj (htest.symm.trans htest')
      cases hsame hyes hyes'
      cases hsame hno hno'
      exact congrArg₂ _ (ihyes hyesShows) (ihno hnoShows)
    | branch _ _ _ hnull => exact (halternate hnull hno hnoShows).elim
    | loop htype' hword => exact (hloop htype htype' hword rfl).elim
    | _ htype' => exact (hclash htype htype' (by decide)).elim
  | loop htype hword hhead hbody _ ih =>
    cases h' with
    | loop htype' hword' hhead' hbody' hshows =>
      cases Option.some.inj (htype.symm.trans htype')
      cases Option.some.inj (hword.symm.trans hword')
      cases Except.ok.inj (hhead.symm.trans hhead')
      cases hsame hbody hbody'
      exact congrArg _ (ih hshows)
    | _ htype' => exact (hloop htype' htype hword rfl).elim
  | doLoop htype htest hbody _ ih =>
    cases h' with
    | doLoop _ htest' hbody' hshows =>
      cases Except.ok.inj (htest.symm.trans htest')
      cases hsame hbody hbody'
      exact congrArg (Shape.doLoop · _) (ih hshows)
    | loop htype' hword => exact (hloop htype htype' hword rfl).elim
    | _ htype' => exact (hclash htype htype' (by decide)).elim
  | labelled htype hlabel hname hbody _ ih =>
    cases h' with
    | labelled _ hlabel' hname' hbody' hshows =>
      cases hsame hlabel hlabel'
      cases hsame hname hname'
      cases hsame hbody hbody'
      exact congrArg _ (ih hshows)
    | loop htype' hword => exact (hloop htype htype' hword rfl).elim
    | _ htype' => exact (hclash htype htype' (by decide)).elim

/-! ## The text of a tree -/

/-- The text of a statement spells its shape, the words of which are told from others. -/
structure SpelledAs (A : Alphabet) (place : Place) (j : Json) (s : Shape) (cs : List Char) : Prop where
  shows : Shows place j s
  spells : Spells (.statement s) cs
  worded : ∀ p ∈ s.parts, p.Worded A

section Printing

open Alphabet

variable {A : Alphabet} {place : Place} {j v : Json} {fields : Fields Json} {items : List Json} {type : String}

theorem Shows.isBranch {s : Shape} (h : Shows place j s) : s.isBranch = true ↔ j.type? = some "IfStatement" := by
  cases h with
  | branch htype | choice htype => exact ⟨fun _ => htype, fun _ => rfl⟩
  | empty htype | expression htype | block htype | doLoop htype | labelled htype =>
    exact ⟨nofun, fun h => absurd (Option.some.inj (htype.symm.trans h)) (by decide)⟩
  | loop htype hword =>
    refine ⟨nofun, fun h => ?_⟩
    obtain rfl := Option.some.inj (htype.symm.trans h)
    cases hword

theorem StatementTree.exists_type (h : StatementTree j) : ∃ fields type, j = .obj fields ∧ Fields.type? fields = some type := by
  cases h with
  | _ htype => exact ⟨_, _, rfl, htype⟩

/-! ### Space -/

theorem isGap_line (place : Place) : IsGap ('\n' :: place.pad.toList) := by
  refine ⟨List.cons_ne_nil _ _, List.forall_mem_cons.2 ⟨.inr rfl, fun c hc => .inl ?_⟩⟩
  rw [Place.pad, String.toList_join] at hc
  obtain ⟨s, hs, hc⟩ := List.mem_flatMap.1 hc
  rw [List.eq_of_mem_replicate hs] at hc
  simpa using hc

/-- Lines in front of each statement, and of the closing brace. -/
theorem toList_braced {texts : List String} (hne : texts ≠ []) : (braced place texts).toList =
    '\x7b' :: (texts.flatMap (fun t => ('\n' :: place.deeper.pad.toList) ++ t.toList) ++
      (('\n' :: place.pad.toList) ++ ['\x7d'])) := by
  have hlines (lines : List (List Char)) (hne : lines ≠ []) :
      '\n' :: List.intercalate ['\n'] lines = lines.flatMap ('\n' :: ·) := by
    induction lines with
    | nil => exact absurd rfl hne
    | cons line lines ih =>
      cases lines with
      | nil => simp
      | cons next lines =>
        rw [List.intercalate_cons_cons, List.flatMap_cons, ← ih (List.cons_ne_nil next lines)]
        simp
  have hpadded := hlines ((texts.map (place.deeper.pad ++ ·)).map String.toList) (by simpa using hne)
  rw [List.map_map, List.flatMap_map] at hpadded
  simp only [Function.comp_def, String.toList_append] at hpadded
  rw [braced]
  simp only [String.toList_append, String.toList_intercalate, List.map_map, Function.comp_def, List.append_assoc, List.cons_append,
    ← hpadded]
  rfl

/-! ### Blocks and what is behind heads -/

/-- Statements in braces, each of which spells a shape. -/
def InBraces (A : Alphabet) (place : Place) (items : List Json) (text : String) : Prop :=
  ∃ body cs, text.toList = '\x7b' :: cs ∧ items.length = body.length ∧ (∀ p ∈ items.zip body, Shows place.deeper p.1 p.2) ∧
    Spells (.body body) cs ∧ ∀ p ∈ Shape.partsEach body, p.Worded A

/-- Statements, each of which is printed as what spells its shape. -/
theorem spells_lines {texts : List String} (h : List.Forall₂ (fun s t => ∃ shape, SpelledAs A place s shape t.toList) items texts)
    {line last : List Char} (hline : IsGap line) (hlast : IsGap last) : ∃ body, items.length = body.length ∧
      (∀ p ∈ items.zip body, Shows place p.1 p.2) ∧
      Spells (.body body) (texts.flatMap (fun t => line ++ t.toList) ++ (last ++ ['\x7d'])) ∧
      ∀ p ∈ Shape.partsEach body, p.Worded A := by
  induction h with
  | nil =>
    refine ⟨[], rfl, List.forall_mem_nil _, ?_, List.forall_mem_nil _⟩
    rw [List.flatMap_nil, List.nil_append]
    exact .gap hlast .last
  | @cons s t items texts hs _ ih =>
    obtain ⟨shape, hshows, hspells, hworded⟩ := hs
    obtain ⟨body, hlength, hall, hbody, hparts⟩ := ih
    refine ⟨shape :: body, congrArg Nat.succ hlength, List.forall_mem_cons.2 ⟨hshows, hall⟩, ?_, fun p hp => ?_⟩
    · rw [List.flatMap_cons, List.append_assoc, List.append_assoc]
      exact .gap hline (.next hspells hbody)
    · exact (List.mem_append.1 hp).elim (hworded p) (hparts p)

/-- Statements in braces, one a line. -/
theorem spelled_lines (hne : items ≠ [])
    (ih : ∀ s ∈ items, ∀ place, Gives ((printable s).statement place) fun text => ∃ shape, SpelledAs A place s shape text.toList) :
    Gives (inBraces place (items.map printable)) (InBraces A place items) := by
  refine (gives_result _).mono fun text htext => ?_
  obtain ⟨texts, htexts, rfl⟩ := exists_braced htext
  have hprinted : List.Forall₂ (fun s t => (printable s).statement place.deeper = .ok t) items texts :=
    List.forall₂_map_left_iff.1 (mapM_eq_ok.1 htexts)
  have hspelled : List.Forall₂ (fun s t => ∃ shape, SpelledAs A place.deeper s shape t.toList) items texts := by
    refine ((List.forall₂_and_left (p := (· ∈ items)) _ _).2 ⟨fun _ h => h, hprinted⟩).imp fun s t ⟨hs, ht⟩ => ?_
    have hgives := ih s hs place.deeper
    rw [ht] at hgives
    exact hgives
  have htextsNe : texts ≠ [] := by
    rintro rfl
    exact hne (List.length_eq_zero_iff.1 hprinted.length_eq)
  obtain ⟨body, hlength, hall, hbody, hparts⟩ := spells_lines hspelled (isGap_line place.deeper) (isGap_line place)
  exact ⟨body, _, toList_braced htextsNe, hlength, hall, hbody, hparts⟩

/-- The text of a block. -/
theorem spelled_block (hitems : Fields.get? "body" fields = some (.arr items))
    (ih : ∀ s ∈ items, ∀ place, Gives ((printable s).statement place) fun text => ∃ shape, SpelledAs A place s shape text.toList) :
    Gives (block place (printed fields)) (InBraces A place items) := by
  by_cases hne : items = []
  · subst hne
    rw [block, optional_printed hitems (by simp), ok_bind]
    exact ⟨[], ['\x7d'], rfl, rfl, List.forall_mem_nil _, .last, List.forall_mem_nil _⟩
  · rw [block_printed hitems hne]
    exact spelled_lines hne ih

/-- What is behind a head: some space, and the text of the statement. -/
def BehindHead (A : Alphabet) (place : Place) (types : List String) (j : Json) (text : String) : Prop :=
  ∃ s g cs, text.toList = g ++ cs ∧ IsGap g ∧ SpelledAs A (place.behind types j) j s cs

theorem behind_obj (htype : Fields.type? fields = some type) (types : List String) :
    place.behind types (.obj fields) = if types.contains type then place else place.deeper := by
  rw [Place.behind, Json.isOneOf_obj htype]

theorem toList_spaced (text : String) : (" " ++ text).toList = [' '] ++ text.toList := String.toList_append ..

theorem toList_lined (text : String) : ("\n" ++ place.pad ++ text).toList = ('\n' :: place.pad.toList) ++ text.toList := by
  simp

/-- The statement behind a head: a block, or on the next line. -/
theorem spelled_nested {types : List String} (hj : StatementTree j)
    (htypes : ∀ type, j.type? = some type → types.contains type = true → type = "BlockStatement")
    (hblock : types.contains "BlockStatement" = true)
    (ih : ∀ place, Gives ((printable j).statement place) fun text => ∃ s, SpelledAs A place j s text.toList) :
    Gives (nested place (printable j)) (BehindHead A place types j) := by
  obtain ⟨fields, type, rfl, htype⟩ := hj.exists_type
  rw [nested, layer_printable, hasType_printed htype, ok_bind]
  refine ends_ite (fun hone => ?_) fun hother => ?_
  · obtain rfl := eq_of_beq hone
    have hstatement : (printable (.obj fields)).statement place = block place (printed fields) := statement_printed htype place
    refine (hstatement ▸ ih place).bind fun text ⟨s, hs⟩ => ends_pure.2 ⟨s, [' '], text.toList, toList_spaced text, isGap_space, ?_⟩
    rw [behind_obj htype, if_pos hblock]
    exact hs
  · refine (ih place.deeper).bind fun text ⟨s, hs⟩ =>
      ends_pure.2 ⟨s, '\n' :: place.deeper.pad.toList, text.toList, toList_lined text, isGap_line _, ?_⟩
    rw [behind_obj htype, if_neg fun hmem => hother (beq_iff_eq.2 (htypes type htype hmem))]
    exact hs

theorem spelled_body (hj : StatementTree j)
    (ih : ∀ place, Gives ((printable j).statement place) fun text => ∃ s, SpelledAs A place j s text.toList) :
    Gives (nested place (printable j)) (BehindHead A place ["BlockStatement"] j) :=
  spelled_nested hj (fun _ _ hmem => List.mem_singleton.1 (List.contains_iff_mem.1 hmem)) rfl ih

/-- The text of a test. -/
theorem gives_branchTest {α : Type} {Q : α → Prop} {k : String → Except Fault α}
    (h : ∀ test, branchTest place (printed fields) = .ok test → Gives (k test) Q) :
    Gives (do k (← (← (printed fields).require "test").expressionText place .sequence)) Q := by
  refine (gives_result _).bind fun p hp => (gives_result _).bind fun test htest => h test ?_
  rw [branchTest, hp]
  exact htest

theorem optional_null {key : String} (h : (Json.field key (.obj fields)).isNull = true) :
    (printed fields).optional key = .ok none := by
  rw [Json.field, Json.get?] at h
  rw [optional_field]
  cases hv : Fields.get? key fields with
  | none => rfl
  | some v =>
    rw [hv, Option.getD_some] at h
    rw [Option.filter_some, h]
    rfl

/-! ### Expressions -/

/-- The text of a literal does not begin like another statement. -/
theorem startsAmbiguously_literal {s : String} (h : Grammar.isLiteralText s = true) : startsAmbiguously s = false := by
  rcases Bool.or_eq_true_iff.1 h with hword | hstart
  · have hall : ∀ w ∈ ["null", "true", "false"], startsAmbiguously w = false := by decide
    exact hall s (List.contains_iff_mem.1 hword)
  · have hall : ∀ p ∈ ambiguousStarts, p.toList.head?.any (!Grammar.isLiteralStart ·) = true := by decide
    obtain ⟨c, hc, hstart⟩ := (Option.any_eq_true _ _).1 hstart
    refine List.any_eq_false.2 fun p hp hprefix => ?_
    obtain ⟨d, hd, hnot⟩ := (Option.any_eq_true _ _).1 (hall p hp)
    obtain ⟨ds, hds⟩ := List.head?_eq_some_iff.1 hd
    obtain ⟨t, ht⟩ := List.isPrefixOf_iff_prefix.1 hprefix
    rw [hds] at ht
    rw [← ht] at hc
    cases hc
    rw [hstart] at hnot
    cases hnot

theorem isLiteralText_quote (s : String) : Grammar.isLiteralText (literalText (.str s)) = true := by
  have hhead : (literalText (.str s)).toList.head? = some '"' := by
    simp [literalText, quote, quoteWith]
  rw [Grammar.isLiteralText, hhead, Option.any_some, show Grammar.isLiteralStart '"' = true by decide, Bool.or_true]

/-- A directive is printed as a literal. -/
theorem gives_directiveText {literal : Fields Json} {content : String} (hworded : (Json.obj fields).Worded A)
    (hdirective : Fields.get? "directive" fields = some (.str content)) (hcontent : content ≠ "")
    (hexpression : Fields.get? "expression" fields = some (.obj literal)) (hliteral : Fields.type? literal = some "Literal") :
    Gives (expressionStatement place (printed fields)) fun text => ∃ s, text = s ++ ";" ∧ Grammar.isLiteralText s = true := by
  have htruthy : (layer (printable (.str content))).truthy = true := by
    rw [truthy_printable]
    simpa [Json.truthy] using hcontent
  have hsource : (printable (.str content)).source = .str content := Json.source_annotate forms _
  rw [expressionStatement, optional_printed hdirective (by simp), ok_bind, Option.filter_some, if_pos htruthy]
  simp only [directive]
  rw [require_printed hexpression, ok_bind, layer_printable, optional_field, ok_bind]
  cases hraw : (Fields.get? "raw" literal).filter fun v => !v.isNull with
  | none => exact ⟨_, by rw [hsource], isLiteralText_quote content⟩
  | some raw =>
    refine ends_ite (fun _ => ?_) fun _ => ⟨_, by rw [hsource], isLiteralText_quote content⟩
    rw [Json.source_annotate]
    refine (gives_str raw).bind fun s hs => ends_pure.2 ⟨s, rfl, ?_⟩
    have hspelled := (hworded.field hexpression).literal hliteral
    rw [Grammar.literalSource, Json.field_of_get? (Option.filter_eq_some_iff.1 hraw).1, hs] at hspelled
    exact hspelled

/-- The text of an expression statement, up to the semicolon, is the text of its shape. -/
theorem spelled_expression {access : Prop} {text : String} (htype : Fields.type? fields = some "ExpressionStatement")
    (hprinted : expressionStatement place (printed fields) = .ok (text ++ ";")) (hstarts : startsAmbiguously text = false)
    (hfront : ∀ u, Front A access (text.toList ++ ';' :: u)) :
    SpelledAs A place (.obj fields) (.expression text) (text ++ ";").toList := by
  refine ⟨.expression htype hprinted, ?_, List.forall_mem_singleton.2 (worded_of_front hfront hstarts)⟩
  rw [String.toList_append]
  exact .expression

/-! ### Branches, loops and labels -/

theorem toList_headed (word head text : String) :
    (word ++ " (" ++ head ++ ")" ++ text).toList = headed word head text.toList := by
  simp [headed]

/-- What an `if` with an `else` leads to: a branch in braces, or as it is. -/
def BehindIf (A : Alphabet) (place : Place) (j : Json) (text : String) : Prop :=
  ∃ s g cs, text.toList = g ++ cs ∧ IsGap g ∧ Shows (place.behind ["BlockStatement"] j) j s ∧ Spells (.statement s.braced) cs ∧
    ∀ p ∈ s.parts, p.Worded A

theorem spelled_consequent (place : Place) (hj : StatementTree j)
    (ih : ∀ place, Gives ((printable j).statement place) fun text => ∃ s, SpelledAs A place j s text.toList) :
    (j.type? = some "IfStatement" → Gives (inBraces place [printable j]) fun text => BehindIf A place j (" " ++ text)) ∧
    (j.type? ≠ some "IfStatement" → Gives (nested place (printable j)) (BehindIf A place j)) := by
  constructor
  · intro htype
    have hlines : Gives (inBraces place ([j].map printable)) (InBraces A place [j]) :=
      spelled_lines (List.cons_ne_nil _ _) (List.forall_mem_singleton.2 ih)
    refine hlines.mono fun text h => ?_
    obtain ⟨body, cs, htext, hlength, hall, hspells, hparts⟩ := h
    obtain ⟨s, rfl⟩ := List.length_eq_one_iff.1 hlength.symm
    have hshows : Shows place.deeper j s := hall (j, s) (List.mem_singleton_self _)
    have hbraced : s.braced = .block [s] := if_pos (hshows.isBranch.2 htype)
    refine ⟨s, [' '], _, toList_spaced text, isGap_space, ?_, ?_, fun p hp => hparts p (List.mem_append_left _ hp)⟩
    · obtain ⟨fields, rfl, hfields⟩ := Json.exists_fields_of_type? htype
      rw [behind_obj hfields]
      exact hshows
    · rw [hbraced, htext]
      exact .block hspells
  · intro htype
    refine (spelled_body hj ih).mono fun text h => ?_
    obtain ⟨s, g, cs, htext, hg, hs⟩ := h
    have hbraced : s.braced = s := if_neg fun hbranch => htype (hs.shows.isBranch.1 hbranch)
    exact ⟨s, g, cs, htext, hg, hs.shows, by rw [hbraced]; exact hs.spells, hs.worded⟩

/-- What is behind an `else`: a branch on the same line, or as behind any head. -/
theorem spelled_alternate (place : Place) (hj : StatementTree j)
    (ih : ∀ place, Gives ((printable j).statement place) fun text => ∃ s, SpelledAs A place j s text.toList) :
    (j.type? = some "IfStatement" → Gives ((printable j).statement place) fun text =>
      BehindHead A place ["BlockStatement", "IfStatement"] j (" " ++ text)) ∧
    (j.type? ≠ some "IfStatement" → Gives (nested place (printable j))
      (BehindHead A place ["BlockStatement", "IfStatement"] j)) := by
  constructor
  · intro htype
    refine (ih place).mono fun text ⟨s, hs⟩ => ⟨s, [' '], text.toList, toList_spaced text, isGap_space, ?_⟩
    obtain ⟨fields, rfl, hfields⟩ := Json.exists_fields_of_type? htype
    rw [behind_obj hfields]
    exact hs
  · intro htype
    refine spelled_nested hj (fun type hone hmem => ?_) rfl ih
    rcases List.mem_pair.1 (List.contains_iff_mem.1 hmem) with rfl | rfl
    · rfl
    · exact absurd hone htype

/-- The space between a statement and the word behind it. -/
theorem isGap_between (place : Place) (b : Bool) : IsGap (if b then " " else "\n" ++ place.pad).toList := by
  split
  · exact isGap_space
  · rw [String.toList_append]
    exact isGap_line place

theorem spelled_choice {yes no : Json} (htype : Fields.type? fields = some "IfStatement")
    (hyes : Fields.get? "consequent" fields = some yes) (hno : Fields.get? "alternate" fields = some no)
    (hyesTree : StatementTree yes) (hnoTree : StatementTree no)
    (ihyes : ∀ place, Gives ((printable yes).statement place) fun text => ∃ s, SpelledAs A place yes s text.toList)
    (ihno : ∀ place, Gives ((printable no).statement place) fun text => ∃ s, SpelledAs A place no s text.toList) (place : Place) :
    Gives ((printable (.obj fields)).statement place) fun text => ∃ s, SpelledAs A place (.obj fields) s text.toList := by
  have hconsequent := spelled_consequent place hyesTree ihyes
  have halternate := spelled_alternate place hnoTree ihno
  obtain ⟨yesFields, yesType, rfl, hyesType⟩ := hyesTree.exists_type
  obtain ⟨noFields, noType, rfl, hnoType⟩ := hnoTree.exists_type
  rw [statement_printed htype]
  change Gives (Printable.branch place (printed fields)) _
  rw [Printable.branch, require_printed hyes, ok_bind, optional_printed hno (by simp), ok_bind]
  refine (gives_result _).bind fun wrapped hwrapped => gives_branchTest fun test htest => ?_
  rw [layer_printable, hasType_printed hyesType] at hwrapped
  obtain rfl := Except.ok.inj hwrapped
  extract_lets rest
  -- all that matters of the texts on both sides of the `else` is what they spell
  have hrest {yesText : String} (h : BehindIf A place (.obj yesFields) yesText) :
      Gives (rest yesText) fun text => ∃ s, SpelledAs A place (.obj fields) s text.toList := by
    obtain ⟨yes, g, cs, hyesText, hg, hyesShows, hyesSpells, hyesWorded⟩ := h
    refine gives_then fun isBlock => ?_
    extract_lets gap last
    have hlast {noText : String} (h : BehindHead A place ["BlockStatement", "IfStatement"] (.obj noFields) noText) :
        Gives (last noText) fun text => ∃ s, SpelledAs A place (.obj fields) s text.toList := by
      obtain ⟨no, g', ds, hnoText, hg', hs⟩ := h
      have hline : ("if (" ++ test ++ ")" ++ yesText ++ gap ++ "else" ++ noText).toList =
          headed "if" test (g ++ (cs ++ (gap.toList ++ ("else".toList ++ (g' ++ ds))))) := by
        simp [headed, hyesText, hnoText]
      refine ends_pure.2 ⟨.choice test yes no, .choice htype htest hyes hno hyesShows hs.shows, ?_, ?_⟩
      · rw [hline]
        exact .choice hg (isGap_between place _) hg' hyesSpells hs.spells
      · exact List.forall_mem_cons.2 ⟨trivial, List.forall_mem_append.2 ⟨hyesWorded, hs.worded⟩⟩
    rw [layer_printable, hasType_printed hnoType, ok_bind]
    refine ends_ite (fun hif => ?_) fun hother => ?_
    · exact (halternate.1 (eq_of_beq hif ▸ hnoType)).bind fun _ h => hlast h
    · refine (halternate.2 fun hif => ?_).bind fun _ h => hlast h
      exact hother (beq_iff_eq.2 (Option.some.inj (hnoType.symm.trans hif)))
  refine ends_ite (fun hif => ?_) fun hother => ?_
  · exact (hconsequent.1 (eq_of_beq hif ▸ hyesType)).bind fun _ h => hrest h
  · refine (hconsequent.2 fun hif => ?_).bind fun _ h => hrest h
    exact hother (beq_iff_eq.2 (Option.some.inj (hyesType.symm.trans hif)))

/-- **The text of a tree spells its shape.** By induction over the tree. -/
theorem StatementTree.spelled (h : StatementTree j) (hworded : j.Worded A) : ∀ place,
    Gives ((printable j).statement place) fun text => ∃ s, SpelledAs A place j s text.toList := by
  induction h with
  | empty htype =>
    intro place
    rw [statement_printed htype]
    exact ⟨.empty, .empty htype, .empty, fun p hp => List.mem_singleton.1 hp ▸ trivial⟩
  | @expression fields htype hdirective =>
    intro place
    rw [statement_printed htype]
    refine (gives_expressionStatement_front hworded htype hdirective).known.mono fun text h => ?_
    obtain ⟨hprinted, s, htext, hstarts, hfront⟩ := h
    subst htext
    exact ⟨.expression s, spelled_expression htype hprinted hstarts hfront⟩
  | @directive fields literal content htype hdirective hcontent hexpression hliteral =>
    intro place
    rw [statement_printed htype]
    refine (gives_directiveText hworded hdirective hcontent hexpression hliteral).known.mono fun text h => ?_
    obtain ⟨hprinted, s, htext, hspelled⟩ := h
    subst htext
    have hfront (u : List Char) : Front A True (s.toList ++ ';' :: u) := front_literal hspelled rfl
    exact ⟨.expression s, spelled_expression htype hprinted (startsAmbiguously_literal hspelled) hfront⟩
  | @block fields items htype hitems _ ih =>
    intro place
    rw [statement_printed htype]
    have hitem (s : Json) (hs : s ∈ items) := ih s hs ((hworded.field hitems).item hs)
    refine (spelled_block hitems hitem).mono fun text h => ?_
    obtain ⟨body, cs, htext, hlength, hall, hspells, hparts⟩ := h
    rw [htext]
    exact ⟨.block body, .block htype hitems hlength hall, .block hspells, List.forall_mem_cons.2 ⟨trivial, hparts⟩⟩
  | @branch fields yes htype hyes hnull hyesTree ih =>
    intro place
    rw [statement_printed htype]
    change Gives (Printable.branch place (printed fields)) _
    rw [Printable.branch, require_printed hyes, ok_bind, optional_null hnull, ok_bind]
    refine gives_branchTest fun test htest => ?_
    refine (spelled_body hyesTree (ih (hworded.field hyes))).bind fun text h => ends_pure.2 ?_
    obtain ⟨s, g, cs, htext, hg, hs⟩ := h
    refine ⟨.branch test s, .branch htype htest hyes hnull hs.shows, ?_, List.forall_mem_cons.2 ⟨trivial, hs.worded⟩⟩
    rw [show "if (" = "if" ++ " (" from rfl, toList_headed, htext]
    exact .branch hg hs.spells
  | choice htype hyes hno hyesTree hnoTree ihyes ihno =>
    exact spelled_choice htype hyes hno hyesTree hnoTree (ihyes (hworded.field hyes)) (ihno (hworded.field hno))
  | @loop fields type word body htype hword hbody hbodyTree ih =>
    intro place
    rw [statement_printed htype, statementOf_loop hword]
    refine (gives_result _).bind fun head hhead => ?_
    rw [require_printed hbody, ok_bind]
    refine (spelled_body hbodyTree (ih (hworded.field hbody))).bind fun text h => ends_pure.2 ?_
    obtain ⟨s, g, cs, htext, hg, hs⟩ := h
    refine ⟨.loop word head s, .loop htype hword hhead hbody hs.shows, ?_, List.forall_mem_cons.2 ⟨trivial, hs.worded⟩⟩
    rw [toList_headed, htext]
    exact .loop hg hs.spells
  | @doLoop fields body htype hbody hbodyTree ih =>
    intro place
    rw [statement_printed htype]
    change Gives (Printable.doLoop place (printed fields)) _
    rw [Printable.doLoop, require_printed hbody, ok_bind]
    refine (spelled_body hbodyTree (ih (hworded.field hbody))).bind fun text h => ?_
    obtain ⟨s, g, cs, htext, hg, hs⟩ := h
    refine gives_then fun isBlock => ?_
    extract_lets gap
    refine gives_branchTest fun test htest => ends_pure.2 ?_
    refine ⟨.doLoop s test, .doLoop htype htest hbody hs.shows, ?_, List.forall_mem_cons.2 ⟨trivial, hs.worded⟩⟩
    have hline : ("do" ++ text ++ gap ++ "while (" ++ test ++ ");").toList =
        "do".toList ++ (g ++ (cs ++ (gap.toList ++ headed "while" test [';']))) := by
      simp [headed, htext]
    rw [hline]
    exact .doLoop hg (isGap_between place isBlock) hs.spells
  | @labelled fields label body htype hlabel hname hbody hbodyTree ih =>
    intro place
    rw [statement_printed htype]
    change Gives (do
      let label ← nameOf "label" (printed fields)
      return label ++ ": " ++ (← (← (printed fields).require "body").statement place)) _
    refine (gives_namedText "label").bind fun name h => ?_
    obtain ⟨v, hv, hget⟩ := h
    obtain rfl := Option.some.inj (hlabel.symm.trans hv)
    rw [require_printed hbody, ok_bind]
    refine (ih (hworded.field hbody) place).bind fun text h => ends_pure.2 ?_
    obtain ⟨s, hs⟩ := h
    have hkey : Grammar.isSpelling fields "label" = false := by
      rw [Grammar.isSpelling, htype]
      rfl
    have hreserved := hworded.not_reserved hlabel hkey _ (List.mem_cons_self ..)
    refine ⟨.labelled name s, .labelled htype hlabel hget hbody hs.shows, ?_, List.forall_mem_cons.2 ⟨⟨?_, ?_⟩, hs.worded⟩⟩
    · rw [String.toList_append, String.toList_append, List.append_assoc]
      exact .labelled hs.spells
    · exact (hworded.field hlabel).name hname hget
    · exact Json.not_mem_reservedWords hreserved hname hget

theorem StatementTree.isListed (h : StatementTree j) : j.isOneOf Grammar.listed = true := by
  have hlisted {fields : Fields Json} {type : String} (htype : Fields.type? fields = some type)
      (hmem : Grammar.listed.contains type = true) : (Json.obj fields).isOneOf Grammar.listed = true := by
    rw [Json.isOneOf_obj htype]
    exact hmem
  cases h with
  | @loop _ type word _ htype hword =>
    refine hlisted htype ?_
    unfold loopWord? at hword
    split at hword
    all_goals first
      | decide
      | cases hword
  | empty htype | expression htype | directive htype | block htype | branch htype | choice htype | doLoop htype
  | labelled htype =>
    exact hlisted htype rfl

end Printing

/-- For every sound tree of branches, loops, labels, blocks and expression statements whose names are words that are not
reserved: it has a text, and whoever finds the ends of the expressions in it reads it as the nesting of the tree with each
`else` taken by the innermost branch that can. This is the nesting of the tree, up to blocks around single statements,
exactly if what stands in front of each `else` is a branch, which is put in braces, or does not end in an `if` without an
`else`. -/
theorem printed_nesting {A : Alphabet} {j : Json} (htree : StatementTree j) (hsound : j.Sound) (hworded : j.Worded A)
    (place : Place) : ∃ text shape, (printable j).statement place = .ok text ∧ (∀ s, Shows place j s ↔ s = shape) ∧
      (∀ scan, (∀ p ∈ shape.parts, p.FoundBy scan) → A.readShape scan text = some shape.reread) ∧
      (shape.reread.plain = shape.plain ↔ shape.isSettled = true) := by
  obtain ⟨text, htext⟩ := hsound.exists_statement htree.isListed place
  have hgives := htree.spelled hworded place
  rw [htext] at hgives
  obtain ⟨shape, hshape⟩ := hgives
  exact ⟨text, shape, htext, fun s => ⟨fun h => h.unique hshape.shows, fun h => h ▸ hshape.shows⟩,
    fun scan hfound => hshape.spells.readShape fun p hp => ⟨hshape.worded p hp, hfound p hp⟩, shape.plain_reread_iff⟩

/-- What reads up to a sign wherever it stands. -/
def scanTo : Scan := fun sign cs =>
  match cs.dropWhile (· != sign) with
  | [] => none
  | _ :: rest => some (String.ofList (cs.takeWhile (· != sign)), rest)

theorem finds_scanTo {sign : Char} {text : String} (h : text.toList.all (· != sign) = true) : Finds scanTo sign text := by
  intro u
  have hall : ∀ c ∈ text.toList, (c != sign) = true := List.all_eq_true.1 h
  simp [scanTo, List.dropWhile_append_of_pos hall, List.takeWhile_append_of_pos hall]

/-- An `if` with the test and the statements, and without an `else` for none. -/
def ifNode (test : String) (yes : Json) (no : Option Json) : Json :=
  .obj ([("type", .str "IfStatement"), ("test", .ident (.str test)), ("consequent", yes)] ++
    no.toList.map fun v => ("alternate", v))

/-- The statement that consists of a name. -/
def nameStatement (name : String) : Json := .expressionStatement (.ident (.str name))

def whileNode (test : String) (body : Json) : Json :=
  .obj [("type", .str "WhileStatement"), ("test", .ident (.str test)), ("body", body)]

/-- The statement `if (a) { if (b) x; } else y;`, without the block. -/
def branchInBranch : Json := ifNode "a" (ifNode "b" (nameStatement "x") none) (some (nameStatement "y"))

/-- The statement `if (a) { while (b) if (c) x; } else y;`, without the block. -/
def branchInLoop : Json := ifNode "a" (whileNode "b" (ifNode "c" (nameStatement "x") none)) (some (nameStatement "y"))

theorem tree_nameStatement (name : String) : StatementTree (nameStatement name) := .expression rfl rfl

theorem printed_nesting_braced : ∃ text shape, (printable branchInBranch).statement .top = .ok text ∧
    Shows .top branchInBranch shape ∧ Alphabet.ascii.readShape scanTo text = some shape.reread ∧
    shape.reread.plain = shape.plain := by
  have htree : StatementTree branchInBranch :=
    .choice rfl rfl rfl (.branch rfl rfl rfl (tree_nameStatement "x")) (tree_nameStatement "y")
  have hsound : branchInBranch.Sound := Json.sound_iff.2 ⟨by decide +kernel, by decide +kernel⟩
  obtain ⟨text, shape, htext, hshape, hread, hnesting⟩ := printed_nesting (A := .ascii) htree hsound (by decide +kernel) .top
  have hshows : Shows .top branchInBranch (.choice "a" (.branch "b" (.expression "x")) (.expression "y")) :=
    .choice rfl (ok_of_toOption (by decide +kernel)) rfl rfl
      (.branch rfl (ok_of_toOption (by decide +kernel)) rfl rfl (.expression rfl (ok_of_toOption (by decide +kernel))))
      (.expression rfl (ok_of_toOption (by decide +kernel)))
  obtain rfl := (hshape _).1 hshows
  refine ⟨text, _, htext, hshows, hread scanTo ?_, hnesting.2 (by decide)⟩
  exact List.forall_mem_cons.2 ⟨finds_scanTo rfl, List.forall_mem_cons.2 ⟨finds_scanTo rfl,
    List.forall_mem_cons.2 ⟨finds_scanTo rfl, List.forall_mem_singleton.2 (finds_scanTo rfl)⟩⟩⟩

/-- The `else` behind a loop with a branch in it is read as that of the branch. -/
theorem else_taken_in_loop :
    let shape : Shape := .choice "a" (.loop .whileWord "b" (.branch "c" (.expression "x"))) (.expression "y")
    let read : Shape := .branch "a" (.loop .whileWord "b" (.choice "c" (.expression "x") (.expression "y")))
    let text := "if (a)\n  while (b)\n    if (c)\n      x;\nelse\n  y;"
    StatementTree branchInLoop ∧ branchInLoop.Sound ∧ branchInLoop.Worded .ascii ∧ Shows .top branchInLoop shape ∧
      (printable branchInLoop).statement .top = .ok text ∧ Alphabet.ascii.readShape scanTo text = some read ∧
      read.plain ≠ shape.plain := by
  refine ⟨?_, Json.sound_iff.2 ⟨by decide +kernel, by decide +kernel⟩, by decide +kernel, ?_, ok_of_toOption (by decide +kernel),
    rfl, nofun⟩
  · exact .choice rfl rfl rfl (.loop rfl rfl rfl (.branch rfl rfl rfl (tree_nameStatement "x"))) (tree_nameStatement "y")
  · have hx : Shows (Place.mk 3 false) (nameStatement "x") (.expression "x") := .expression rfl (ok_of_toOption (by decide +kernel))
    exact .choice rfl (ok_of_toOption (by decide +kernel)) rfl rfl
      (.loop rfl rfl (ok_of_toOption (by decide +kernel)) rfl (.branch rfl (ok_of_toOption (by decide +kernel)) rfl rfl hx))
      (.expression rfl (ok_of_toOption (by decide +kernel)))

end ScriptTrace
