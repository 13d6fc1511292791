import ScriptTrace.Proofs.Expressions
import ScriptTrace.Proofs.NodeReading
import ScriptTrace.Syntax.Literal

/-!
# Words in trees and in texts

What is read of a text whose first tokens matter, and of a tree whose words are those of a program.

* `Alphabet.after?`, `Alphabet.opensWith` : the tokens that a text begins with, whatever space is between them;
* `Alphabet.after?_word`, `Alphabet.after?_of_clash` : a word in front of something else, and a token that is not there;
* `Json.Worded` : trees whose names are words that can be names, and whose literals and operators are some.
-/

namespace ScriptTrace

/-! ## The first tokens of a text -/

def Token.isWord : Token → Bool
  | .word _ => true
  | _ => false

namespace Alphabet

variable (A : Alphabet)

/-- The space between tokens. -/
def isSpace (c : Char) : Bool := isGap c && !A.isPart c

/-- The text behind a token that a text begins with, after some space. A word goes on as far as it can. -/
def after? (t : Token) (cs : List Char) : Option (List Char) :=
  let cs := cs.dropWhile A.isSpace
  let rest := cs.drop t.text.toList.length
  if t.text.toList.isPrefixOf cs && !(t.isWord && rest.head?.any A.isPart) then some rest else none

/-- Whether a text begins with these tokens, with any space between them. -/
def opensWith : List Token → List Char → Bool
  | [], _ => true
  | t :: ts, cs => (A.after? t cs).any (opensWith ts)

variable {A : Alphabet} {c : Char} {cs rest u : List Char} {t : Token}

theorem after?_eq_some_iff : A.after? t cs = some rest ↔
    cs.dropWhile A.isSpace = t.text.toList ++ rest ∧ (t.isWord = true → ∀ c ∈ rest.head?, A.isPart c = false) := by
  have hhead (rest : List Char) : rest.head?.any A.isPart = false ↔ ∀ c ∈ rest.head?, A.isPart c = false := by
    cases rest <;> simp
  simp only [after?, Option.ite_none_right_eq_some, Bool.and_eq_true, List.isPrefixOf_iff_prefix, Bool.not_eq_true',
    Bool.and_eq_false_imp, Option.some.injEq, hhead]
  constructor
  · rintro ⟨⟨⟨rest, hrest⟩, hword⟩, rfl⟩
    rw [← hrest, List.drop_left] at hword ⊢
    exact ⟨rfl, hword⟩
  · rintro ⟨hcs, hword⟩
    rw [hcs, List.drop_left]
    exact ⟨⟨⟨rest, rfl⟩, hword⟩, rfl⟩

/-- A text that begins with no space. -/
theorem dropWhile_space (h : ∀ c ∈ cs.head?, A.isSpace c = false) : cs.dropWhile A.isSpace = cs := by
  cases cs with
  | nil => rfl
  | cons c cs => exact List.dropWhile_cons_of_neg (by simp [h c rfl])

/-- A space in front of a text is skipped. -/
theorem after?_space (hc : A.isSpace c = true) : A.after? t (c :: cs) = A.after? t cs := by
  rw [after?, after?, List.dropWhile_cons_of_pos hc]

/-- A token that neither begins a text nor begins with it is not what the text goes on to. -/
theorem after?_of_clash (hspace : ∀ c ∈ cs.head?, A.isSpace c = false) (hcs : cs.isPrefixOf t.text.toList = false)
    (ht : t.text.toList.isPrefixOf cs = false) : A.after? t (cs ++ u) = none := by
  refine Option.eq_none_iff_forall_ne_some.2 fun rest hrest => ?_
  obtain ⟨htext, -⟩ := after?_eq_some_iff.1 hrest
  cases cs with
  | nil => cases hcs
  | cons c cs =>
    rw [dropWhile_space (by exact hspace)] at htext
    rcases List.prefix_or_prefix_of_prefix (List.prefix_append (c :: cs) u) ⟨rest, htext.symm⟩ with h | h
    · rw [List.isPrefixOf_iff_prefix.2 h] at hcs
      cases hcs
    · rw [List.isPrefixOf_iff_prefix.2 h] at ht
      cases ht

/-- What begins with another character does not begin with the token. -/
theorem after?_of_head (hc : A.isSpace c = false) (ht : t.text.toList.head? ≠ some c) (hne : t.text ≠ "") :
    A.after? t (c :: cs) = none := by
  have hclash : [c].isPrefixOf t.text.toList = false ∧ t.text.toList.isPrefixOf [c] = false := by
    cases htext : t.text.toList with
    | nil => exact absurd (String.toList_eq_nil_iff.1 htext) hne
    | cons d ds =>
      have hdc : d ≠ c := fun he => ht (by rw [htext, he]; rfl)
      simp [List.isPrefixOf, hdc, hdc.symm]
  have hspace : ∀ d ∈ [c].head?, A.isSpace d = false := by
    rintro _ ⟨⟩
    exact hc
  exact after?_of_clash hspace hclash.1 hclash.2

theorem after?_nil (hne : t.text ≠ "") : A.after? t [] = none := by
  refine Option.eq_none_iff_forall_ne_some.2 fun rest hrest => ?_
  obtain ⟨htext, -⟩ := after?_eq_some_iff.1 hrest
  exact hne (String.toList_eq_nil_iff.1 (List.append_eq_nil_iff.1 htext.symm).1)

/-- A word ends where something else than a word comes next. -/
theorem word_span {xs us : List Char} (hxs : ∀ c ∈ xs, A.isPart c = true) (hus : ∀ c ∈ us.head?, A.isPart c = false) :
    (xs ++ us).takeWhile A.isPart = xs ∧ (xs ++ us).dropWhile A.isPart = us := by
  rw [List.takeWhile_append_of_pos hxs, List.dropWhile_append_of_pos hxs]
  cases us with
  | nil => simp
  | cons c us =>
    have hc : ¬ A.isPart c = true := by simp [hus c rfl]
    rw [List.takeWhile_cons_of_neg hc, List.dropWhile_cons_of_neg hc, List.append_nil]
    exact ⟨rfl, rfl⟩

/-- Two words in front of something else than a word are one word. -/
theorem word_cut {xs ys us vs : List Char} (hxs : ∀ c ∈ xs, A.isPart c = true) (hys : ∀ c ∈ ys, A.isPart c = true)
    (hus : ∀ c ∈ us.head?, A.isPart c = false) (hvs : ∀ c ∈ vs.head?, A.isPart c = false) (h : xs ++ us = ys ++ vs) :
    xs = ys ∧ us = vs := by
  obtain rfl : xs = ys := by rw [← (word_span hxs hus).1, h, (word_span hys hvs).1]
  exact ⟨rfl, List.append_cancel_left h⟩

/-- A word that stands in front of something else than a word is the first token. -/
theorem after?_word {w n : String} (hspace : ∀ c ∈ n.toList.head?, A.isSpace c = false) (hne : n ≠ "")
    (hw : ∀ c ∈ w.toList, A.isPart c = true) (hn : ∀ c ∈ n.toList, A.isPart c = true)
    (hu : ∀ c ∈ u.head?, A.isPart c = false) : A.after? (.word w) (n.toList ++ u) = if w = n then some u else none := by
  have hdrop : (n.toList ++ u).dropWhile A.isSpace = n.toList ++ u := by
    refine dropWhile_space fun c hc => hspace c ?_
    rwa [List.head?_append_of_ne_nil _ fun h => hne (String.toList_eq_nil_iff.1 h)] at hc
  split
  · next heq =>
    subst heq
    exact after?_eq_some_iff.2 ⟨hdrop, fun _ => hu⟩
  · next hwn =>
    refine Option.eq_none_iff_forall_ne_some.2 fun rest hrest => ?_
    obtain ⟨hcs, hrest⟩ := after?_eq_some_iff.1 hrest
    rw [hdrop] at hcs
    exact hwn (String.toList_inj.1 (word_cut hn hw hu (hrest rfl) hcs).1.symm)

end Alphabet

section Characters

variable {A : Alphabet} {c : Char}

/-- Characters of ASCII are the same in every alphabet. -/
theorem Alphabet.isPart_ascii (hc : c.toNat < 128) : A.isPart c = ascii.isPart c := by
  rw [isPart, isPart, if_pos hc, if_pos hc]

theorem isPart_of_all {cs : List Char} (h : cs.all (fun c => decide (c.toNat < 128) && Alphabet.ascii.isPart c) = true) :
    ∀ c ∈ cs, A.isPart c = true := by
  intro c hc
  obtain ⟨hlt, hpart⟩ := Bool.and_eq_true_iff.1 (List.all_eq_true.1 h c hc)
  rw [Alphabet.isPart_ascii (of_decide_eq_true hlt), hpart]

theorem isSpace_of_not_gap (h : isGap c = false) : A.isSpace c = false := by
  rw [Alphabet.isSpace, h, Bool.false_and]

theorem isSpace_of_isStart (h : A.isStart c = true) : A.isSpace c = false := by
  rw [Alphabet.isSpace, Alphabet.isPart_of_isStart h, Bool.not_true, Bool.and_false]

theorem isSpace_of_head {cs : List Char} (h : cs.head?.any isGap = false) : ∀ c ∈ cs.head?, A.isSpace c = false := by
  intro c hc
  rw [Option.mem_def.1 hc, Option.any_some] at h
  exact isSpace_of_not_gap h

end Characters

/-- The characters of a word. -/
theorem Token.Proper.word_chars {A : Alphabet} {n : String} (h : (Token.word n).Proper A) :
    (∃ c cs, n.toList = c :: cs ∧ A.isStart c = true) ∧ ∀ c ∈ n.toList, A.isPart c = true := by
  have hrun {cs : List Char} (h : Lexing.word.run A cs = some .word) : ∀ c ∈ cs, A.isPart c = true := by
    induction cs with
    | nil => nofun
    | cons c cs ih =>
      obtain ⟨next, hnext, hrest⟩ := Option.bind_eq_some_iff.1 h
      obtain ⟨hc, hword⟩ := Option.ite_none_right_eq_some.1 hnext
      cases hword
      exact List.forall_mem_cons.2 ⟨hc, ih hrest⟩
  obtain ⟨last, hread⟩ := h.readTo
  obtain ⟨c, cs, first, htext, hfirst, hlast⟩ := hread.run
  have hword : last = .word := by
    have htoken := hread.token
    cases last <;> simp_all [Lexing.token?]
  subst hword
  rw [Lexing.run_word hlast] at hfirst hlast
  have hstart := Lexing.start_word hfirst
  refine ⟨⟨c, cs, htext, hstart⟩, ?_⟩
  rw [show n.toList = c :: cs from htext]
  exact List.forall_mem_cons.2 ⟨Alphabet.isPart_of_isStart hstart, hrun hlast⟩

/-! ## Worded trees -/

namespace Grammar

/-- Whether the name under a key only spells a property, which any word can. -/
def isSpelling (fields : Fields Json) (key : String) : Bool :=
  Fields.type? fields == some "MetaProperty" ||
    (["property", "key"].contains key && !(Json.field "computed" (.obj fields)).truthy)

/-- The text of a literal: as it was written, or made from its value. -/
def literalSource (fields : Fields Json) : String :=
  (Json.field "raw" (.obj fields)).string?.getD (literalText (Json.field "value" (.obj fields)))

/-- The first characters of strings, numbers and regular expressions. -/
def isLiteralStart (c : Char) : Bool := "0123456789\"'.-/".toList.contains c

def isLiteralText (s : String) : Bool := ["null", "true", "false"].contains s || s.toList.head?.any isLiteralStart

/-- Whether the words of a node are spelled as its type asks for. -/
def isSpelledAs (A : Alphabet) (fields : Fields Json) : Bool :=
  let operators (tokens : List Token) := (Json.field "operator" (.obj fields)).string?.any (tokens.map Token.text).contains
  match Fields.type? fields with
  | some "Identifier" => (Json.field "name" (.obj fields)).string?.any fun n => decide ((Token.word n).Proper A)
  | some "MetaProperty" => ((Json.field "meta" (.obj fields)).field "name").string?.any ["new", "import"].contains
  | some "Literal" => isLiteralText (literalSource fields)
  | some "UnaryExpression" => operators (UnaryOperator.all.map UnaryOperator.token)
  | some "UpdateExpression" => operators (UpdateOperator.all.map UpdateOperator.token)
  | some "AssignmentExpression" => operators (AssignOperator.all.map AssignOperator.token)
  | some "SequenceExpression" => 2 ≤ (Json.field "expressions" (.obj fields)).items.length
  | _ => true

end Grammar

namespace Json

/-- A name that is a reserved word. -/
def isReservedName (v : Json) : Bool := v.type? == some "Identifier" && (v.field "name").string?.any reservedWords.contains

/-- Whether the names below a node are no reserved words, unless they only spell properties. -/
def namesParts (fields : Fields Json) : Bool :=
  fields.all fun f => Grammar.isSpelling fields f.1 || (f.2 :: f.2.items).all (!·.isReservedName)

/-- A value whose names are words that can be names, and whose literals and operators are some. -/
def Worded (A : Alphabet) (j : Json) : Prop :=
  j.everyObject (fun fields => Grammar.isSpelledAs A fields && namesParts fields) = true

instance (A : Alphabet) (j : Json) : Decidable (j.Worded A) := inferInstanceAs (Decidable (_ = _))

section Worded

variable {A : Alphabet} {fields : Fields Json} {key type : String} {v : Json} {items : List Json}

theorem Worded.field (h : (obj fields).Worded A) (hv : Fields.get? key fields = some v) : v.Worded A := everyObject_get? h hv

theorem Worded.item (h : (arr items).Worded A) (hv : v ∈ items) : v.Worded A := everyObject_arr.1 h v hv

theorem Worded.spelled (h : (obj fields).Worded A) : Grammar.isSpelledAs A fields = true :=
  (Bool.and_eq_true_iff.1 (everyObject_obj.1 h).1).1

/-- A part of a node, or of a list in it, is no reserved word. -/
theorem Worded.not_reserved (h : (obj fields).Worded A) (hv : Fields.get? key fields = some v)
    (hkey : Grammar.isSpelling fields key = false) : ∀ x ∈ v :: v.items, x.isReservedName = false := by
  have hparts := List.all_eq_true.1 (Bool.and_eq_true_iff.1 (everyObject_obj.1 h).1).2 _ (Fields.mem_of_get? hv)
  rw [hkey, Bool.false_or] at hparts
  exact fun x hx => by simpa using List.all_eq_true.1 hparts x hx

theorem not_mem_reservedWords (h : (obj fields).isReservedName = false) (htype : Fields.type? fields = some "Identifier")
    {n : String} (hname : Fields.get? "name" fields = some (.str n)) : n ∉ reservedWords := by
  rw [isReservedName, show (obj fields).type? = some "Identifier" from htype, field_of_get? hname] at h
  exact fun hmem => absurd (List.contains_iff_mem.2 hmem) (by simpa [string?] using h)

theorem Worded.name (h : (obj fields).Worded A) (htype : Fields.type? fields = some "Identifier") {n : String}
    (hname : Fields.get? "name" fields = some (.str n)) : (Token.word n).Proper A := by
  have hspelled := h.spelled
  rw [Grammar.isSpelledAs, htype, field_of_get? hname] at hspelled
  exact of_decide_eq_true hspelled

theorem Worded.metaName (h : (obj fields).Worded A) (htype : Fields.type? fields = some "MetaProperty") {n : String}
    (hv : Fields.get? "meta" fields = some v) (hname : v.get? "name" = some (.str n)) : n ∈ ["new", "import"] := by
  have hspelled := h.spelled
  rw [Grammar.isSpelledAs, htype, field_of_get? hv] at hspelled
  have hword : ((v.get? "name").getD .null).string?.any ["new", "import"].contains = true := hspelled
  rw [hname] at hword
  exact List.contains_iff_mem.1 hword

theorem Worded.literal (h : (obj fields).Worded A) (htype : Fields.type? fields = some "Literal") :
    Grammar.isLiteralText (Grammar.literalSource fields) = true := by
  have hspelled := h.spelled
  rw [Grammar.isSpelledAs, htype] at hspelled
  exact hspelled

theorem Worded.sequence (h : (obj fields).Worded A) (htype : Fields.type? fields = some "SequenceExpression") :
    ∃ v w vs, Fields.get? "expressions" fields = some (.arr (v :: w :: vs)) := by
  have hspelled := h.spelled
  rw [Grammar.isSpelledAs, htype] at hspelled
  have hlength : 2 ≤ ((Fields.get? "expressions" fields).getD .null).items.length := of_decide_eq_true hspelled
  match hv : Fields.get? "expressions" fields with
  | some (.arr (v :: w :: vs)) => exact ⟨v, w, vs, rfl⟩
  | none | some (.arr []) | some (.arr [_]) | some .null | some (.bool _) | some (.int _) | some (.float _) | some (.str _)
  | some (.obj _) =>
    rw [hv] at hlength
    exact absurd hlength (by simp [items])

/-- The operator of a node is one of its type. -/
theorem Worded.operator (h : (obj fields).Worded A) (htype : Fields.type? fields = some type) {sign : String}
    (hsign : Fields.get? "operator" fields = some (.str sign)) :
    (type = "UnaryExpression" → ∃ operator : UnaryOperator, operator.token.text = sign) ∧
    (type = "UpdateExpression" → ∃ operator : UpdateOperator, operator.token.text = sign) ∧
    (type = "AssignmentExpression" → ∃ operator : AssignOperator, operator.token.text = sign) := by
  have hspelled := h.spelled
  have hmem {α : Type} {all : List α} {token : α → Token}
      (h : (Json.field "operator" (.obj fields)).string?.any ((all.map token).map Token.text).contains = true) :
      ∃ operator, (token operator).text = sign := by
    rw [field_of_get? hsign] at h
    obtain ⟨t, ht, htext⟩ := List.mem_map.1 (List.contains_iff_mem.1 h)
    obtain ⟨operator, -, rfl⟩ := List.mem_map.1 ht
    exact ⟨operator, htext⟩
  rw [Grammar.isSpelledAs, htype] at hspelled
  refine ⟨?_, ?_, ?_⟩
  · rintro rfl
    exact hmem hspelled
  · rintro rfl
    exact hmem hspelled
  · rintro rfl
    exact hmem hspelled

end Worded

end Json

end ScriptTrace
