import ScriptTrace.Proofs.ReadingFaults
import ScriptTrace.Syntax.Printer.Statement

/-!
# What printed text is composed of

Printed text is put together from fixed words, from texts that are copied from the tree, from the operators between
operands and from text in brackets. Of the operators only `in` can be mistaken for a part of a loop's head.

* `CopyKind` : what a copied text stands for; `Json.copies` : the texts of a tree that are copied;
* `Composed` : text put together by the rules for expressions and declarations; unless it is bare, no operator `in` stands
  outside the brackets;
* `Enclosed` : text in brackets, which may stand right behind an operand;
* `Printable.Composes` : a value the printed forms of which are composed, and all texts in which may be copied;
* `LayerFit` : the layer of such a value, and how its fields are read.
-/

namespace ScriptTrace

/-! ## Composed text -/

/-- What a text stands for that is copied from the tree. -/
inductive CopyKind where
  | name
  | literal
  /-- An operator that does not stand between two operands. -/
  | sign
  /-- The word of a declaration. -/
  | keyword
  /-- A stretch of a template. -/
  | raw

/-- Text that is an expression of its own, or the word of one. -/
def atoms : List String := ["", "this", "super", "null", "yield", "yield*", "function", "function*", "class"]

/-- What stands in front of a part. -/
def leads : List String := ["...", "new ", "await ", "yield ", "yield* ", "async ", "function ", "function* ", "class "]

/-- What stands between two parts, save the operators. -/
def joints : List String := [", ", " = ", " => ", " ? ", " : ", " extends "]

/-- The words of statements and of members, and what stands between them. -/
def words : List String :=
  ["", " ", "\n", "  ", ",", ";", "; ", ":", ": ", "*", " in ", " of ", "if ", "else", "for ", "while ", "do", "try ", " catch",
    " finally ", "switch ", "case ", "default:", "return ", "return;", "throw ", "break", "continue", "debugger;", "get", "set",
    "static ", "async "]

def brackets : List (String × String) := [("(", ")"), ("[", "]"), ("\x7b", "\x7d")]

/-- The inside of a template: its stretches, each with the expression behind it, if there is one. -/
def templateInside (parts : List (String × Option String)) : String :=
  String.join (parts.map fun part => part.1 ++ part.2.elim "" fun s => "$\x7b" ++ s ++ "\x7d")

/-- Whether a text begins with a bracket or a template. -/
def opensGroup (s : String) : Bool := s.toList.head?.any ['(', '[', '\x7b', '\x60'].contains

/-- Text that is put together by rules. They set two operands side by side only where the second one is in brackets: otherwise
an operator, a comma or a word of the language stands between them. So no name ends another one, and between operands the word
`in` is the operator. Only bare text has this operator, or the word of a loop over names, outside all brackets. Statements are
bare text: those inside of expressions stand in braces. -/
inductive Composed (copied : CopyKind → String → Prop) : Bool → String → Prop
  | atom {bare : Bool} {s : String} (h : s ∈ atoms) : Composed copied bare s
  | name {bare : Bool} {s : String} (h : copied .name s) : Composed copied bare s
  | literal {bare : Bool} {s : String} (h : copied .literal s) : Composed copied bare s
  | lead {bare : Bool} {word s : String} (h : word ∈ leads) (hs : Composed copied bare s) : Composed copied bare (word ++ s)
  | joint {bare : Bool} {s word t : String} (h : word ∈ joints) (hs : Composed copied bare s) (ht : Composed copied bare t) :
    Composed copied bare (s ++ word ++ t)
  | declared {bare : Bool} {kind s : String} (h : copied .keyword kind) (hs : Composed copied bare s) :
    Composed copied bare (kind ++ " " ++ s)
  | property {bare : Bool} {s name : String} (hs : Composed copied bare s) (h : copied .name name) :
    Composed copied bare (s ++ "." ++ name)
  | operator {bare : Bool} {s operator t : String} (h : (Precedence.binary? operator).isSome) (hin : operator = "in" → bare = true)
    (hs : Composed copied bare s) (ht : Composed copied bare t) : Composed copied bare (s ++ " " ++ operator ++ " " ++ t)
  | assigned {bare : Bool} {s sign t : String} (h : copied .sign sign) (hs : Composed copied bare s) (ht : Composed copied bare t) :
    Composed copied bare (s ++ " " ++ sign ++ " " ++ t)
  | signed {bare : Bool} {sign gap s : String} (h : copied .sign sign) (hgap : gap ∈ ["", " "]) (hs : Composed copied bare s) :
    Composed copied bare (sign ++ gap ++ s)
  | postfixed {bare : Bool} {s sign : String} (h : copied .sign sign) (hs : Composed copied bare s) :
    Composed copied bare (s ++ sign)
  | group {bare : Bool} {opening closing s : String} (h : (opening, closing) ∈ brackets) (hs : Composed copied true s) :
    Composed copied bare (opening ++ s ++ closing)
  | template {bare : Bool} {parts : List (String × Option String)} (h : ∀ part ∈ parts, copied .raw part.1)
    (hs : ∀ part ∈ parts, ∀ s ∈ part.2, Composed copied true s) :
    Composed copied bare ("\x60" ++ templateInside parts ++ "\x60")
  | beside {bare : Bool} {s gap t : String} (hgap : gap ∈ ["", " "]) (hs : Composed copied bare s) (ht : Composed copied bare t)
    (hopens : opensGroup t = true) : Composed copied bare (s ++ gap ++ t)
  | word {s : String} (h : s ∈ words) : Composed copied true s
  | append {s t : String} (hs : Composed copied true s) (ht : Composed copied true t) : Composed copied true (s ++ t)

/-- Text in brackets, or a template. -/
def Enclosed (copied : CopyKind → String → Prop) (s : String) : Prop := Composed copied false s ∧ opensGroup s = true

theorem opensGroup_append {s : String} (h : opensGroup s = true) (t : String) : opensGroup (s ++ t) = true := by
  obtain ⟨c, hc, hopens⟩ := (Option.any_eq_true _ _).1 h
  rw [opensGroup, String.toList_append, List.head?_append, hc]
  exact hopens

theorem opensGroup_of_brackets {opening closing : String} (h : (opening, closing) ∈ brackets) : opensGroup opening = true := by
  have hall : ∀ b ∈ brackets, opensGroup b.1 = true := by decide
  exact hall _ h

namespace Composed

variable {copied : CopyKind → String → Prop} {bare : Bool} {s t : String}

theorem bared (h : Composed copied bare s) : Composed copied true s := by
  induction h with
  | atom h => exact .atom h
  | name h => exact .name h
  | literal h => exact .literal h
  | lead h _ ih => exact .lead h ih
  | joint h _ _ ihs iht => exact .joint h ihs iht
  | declared h _ ih => exact .declared h ih
  | property _ h ih => exact .property ih h
  | operator h _ _ _ ihs iht => exact .operator h (fun _ => rfl) ihs iht
  | assigned h _ _ ihs iht => exact .assigned h ihs iht
  | signed h hgap _ ih => exact .signed h hgap ih
  | postfixed h _ ih => exact .postfixed h ih
  | group h hs _ => exact .group h hs
  | template h hs _ => exact .template h hs
  | beside hgap _ _ hopens ihs iht => exact .beside hgap ihs iht hopens
  | word h => exact .word h
  | append hs ht _ _ => exact .append hs ht

/-- Text with nothing bare stands anywhere. -/
theorem anywhere (h : Composed copied false s) : Composed copied bare s := by
  cases bare with
  | false => exact h
  | true => exact h.bared

/-- A word before a text. -/
theorem after (word : String) (h : Composed copied true s) (hword : word ∈ words) : Composed copied true (word ++ s) :=
  (Composed.word hword).append h

/-- A word behind a text. -/
theorem before (h : Composed copied true s) (word : String) (hword : word ∈ words) : Composed copied true (s ++ word) :=
  h.append (.word hword)

/-- Text in brackets behind a word. -/
theorem within (word opening closing : String) (h : Composed copied true s) (hword : word ∈ words)
    (hbrackets : (opening, closing) ∈ brackets) : Composed copied true (word ++ opening ++ s ++ closing) := by
  rw [show word ++ opening ++ s ++ closing = word ++ (opening ++ s ++ closing) by simp only [String.append_assoc]]
  exact (Composed.group hbrackets h).after word hword

theorem parens (h : Composed copied true s) : Composed copied bare ("(" ++ s ++ ")") := .group (by decide) h

/-- Parts with commas between them. -/
theorem listed : ∀ {parts : List String}, (∀ s ∈ parts, Composed copied bare s) → Composed copied bare (", ".intercalate parts)
  | [], _ => by
    rw [String.intercalate_nil]
    exact .atom (by decide)
  | [s], h => by
    rw [String.intercalate_singleton]
    exact h s List.mem_cons_self
  | s :: t :: parts, h => by
    rw [String.intercalate_cons_cons]
    obtain ⟨hs, hparts⟩ := List.forall_mem_cons.1 h
    exact .joint (by decide) hs (listed hparts)

/-- Parts on lines of their own. -/
theorem lines : ∀ {parts : List String}, (∀ s ∈ parts, Composed copied true s) → Composed copied true ("\n".intercalate parts)
  | [], _ => by
    rw [String.intercalate_nil]
    exact .word (by decide)
  | [s], h => by
    rw [String.intercalate_singleton]
    exact h s List.mem_cons_self
  | s :: t :: parts, h => by
    rw [String.intercalate_cons_cons]
    obtain ⟨hs, hparts⟩ := List.forall_mem_cons.1 h
    exact (hs.before "\n" (by decide)).append (lines hparts)

theorem join : ∀ {parts : List String}, (∀ s ∈ parts, Composed copied true s) → Composed copied true (String.join parts)
  | [], _ => .word (by decide)
  | s :: parts, h => by
    rw [String.join_cons]
    obtain ⟨hs, hparts⟩ := List.forall_mem_cons.1 h
    exact hs.append (join hparts)

/-- A word that may be left out. -/
theorem flag {b : Bool} {word : String} (hword : word ∈ words) : Composed copied true (if b then word else "") := by
  split
  · exact .word hword
  · exact .word (by decide)

theorem pad (place : Place) : Composed copied true place.pad :=
  join fun _ hs => .word (by rw [List.eq_of_mem_replicate hs]; decide)

/-- Text in brackets behind an operand. -/
theorem enclosed (hs : Composed copied bare s) (ht : Enclosed copied t) : Composed copied bare (s ++ t) := by
  have htext : Composed copied bare (s ++ "" ++ t) := .beside (by decide) hs ht.1.anywhere ht.2
  rwa [String.append_empty] at htext

/-- Text in brackets behind an operand and a space. -/
theorem spaced (hs : Composed copied bare s) (ht : Enclosed copied t) : Composed copied bare (s ++ " " ++ t) :=
  .beside (by decide) hs ht.1.anywhere ht.2

end Composed

theorem Enclosed.group {copied : CopyKind → String → Prop} {opening closing s : String} (h : (opening, closing) ∈ brackets)
    (hs : Composed copied true s) : Enclosed copied (opening ++ s ++ closing) :=
  ⟨.group h hs, opensGroup_append (opensGroup_append (opensGroup_of_brackets h) s) closing⟩

/-! ## Copied texts -/

/-- Types of nodes with an operator between two operands. -/
def operandTypes : List String := ["BinaryExpression", "LogicalExpression"]

/-- The text of a field, if it has one. -/
def fieldText (key : String) (fields : Fields Json) : List String := ((Fields.get? key fields).bind Json.string?).toList

/-- The texts of a node that are copied. A directive stands as it was written, or as the text of its content. -/
def copiedTexts (fields : Fields Json) : CopyKind → List String
  | .name => fieldText "name" fields
  | .keyword => fieldText "kind" fields
  | .raw => fieldText "raw" fields
  | .sign => if (Fields.type? fields).any operandTypes.contains then [] else fieldText "operator" fields
  | .literal =>
    (if Fields.type? fields = some "Literal" then
      fieldText "raw" fields ++ ((Fields.get? "value" fields).map literalText).toList else []) ++
    match Fields.get? "directive" fields with
    | some content => literalText content :: ((Json.field "expression" (.obj fields)).field "raw").string?.toList
    | none => []

namespace Json

variable {kind : CopyKind} {s : String}

mutual

/-- The texts of a kind that are copied, of all nodes in a value. -/
def copies (kind : CopyKind) : Json → List String
  | .arr items => copiesOfItems kind items
  | .obj fields => copiedTexts fields kind ++ copiesOfFields kind fields
  | _ => []

def copiesOfItems (kind : CopyKind) : List Json → List String
  | [] => []
  | x :: xs => copies kind x ++ copiesOfItems kind xs

def copiesOfFields (kind : CopyKind) : List (String × Json) → List String
  | [] => []
  | (_, x) :: rest => copies kind x ++ copiesOfFields kind rest

end

theorem copiesOfItems_eq (items : List Json) : copiesOfItems kind items = items.flatMap (copies kind) := by
  induction items with
  | nil => rfl
  | cons x xs ih => rw [copiesOfItems, ih, List.flatMap_cons]

theorem copiesOfFields_eq : ∀ fields : Fields Json, copiesOfFields kind fields = fields.flatMap fun f => copies kind f.2
  | [] => rfl
  | (_, _) :: rest => by rw [copiesOfFields, copiesOfFields_eq rest, List.flatMap_cons]

theorem copies_item {items : List Json} {x : Json} (hx : x ∈ items) (hs : s ∈ x.copies kind) : s ∈ (arr items).copies kind := by
  rw [copies, copiesOfItems_eq]
  exact List.mem_flatMap.2 ⟨x, hx, hs⟩

theorem copies_field {fields : Fields Json} {f : String × Json} (hf : f ∈ fields) (hs : s ∈ f.2.copies kind) :
    s ∈ (obj fields).copies kind := by
  rw [copies, copiesOfFields_eq]
  exact List.mem_append_right _ (List.mem_flatMap.2 ⟨f, hf, hs⟩)

theorem copies_here {fields : Fields Json} (hs : s ∈ copiedTexts fields kind) : s ∈ (obj fields).copies kind := by
  rw [copies]
  exact List.mem_append_left _ hs

/-- The texts of a value, as the ones that may be copied. -/
def Copied (j : Json) (kind : CopyKind) (s : String) : Prop := s ∈ j.copies kind

end Json

/-! ## Values with composed forms -/

/-- A computation that gives only answers in `Q`; it may fail. -/
abbrev Gives {α : Type} (r : Except Fault α) (Q : α → Prop) : Prop := EndsIn r Q fun _ => True

theorem CoversReading.all : CoversReading fun _ => True := ⟨fun _ => trivial, trivial, trivial⟩

/-- How tightly the operator `in` binds. -/
def Precedence.membership : Precedence := 9

/-- Whether text of a precedence is put so that no bare `in` shows: in the head of a loop, or where a bare `in` would have
been put in parentheses. -/
def Hides (place : Place) (precedence : Precedence) (bare : Bool) : Prop :=
  bare = false → place.inHead = true ∨ Precedence.membership < precedence

section Hides

variable {place : Place} {precedence required : Precedence} {bare : Bool}

theorem hides_bare : Hides place precedence true := nofun

theorem hides_tight (hlt : Precedence.membership < precedence) : Hides place precedence bare := fun _ => .inr hlt

theorem Hides.mono (h : Hides place precedence bare) (hle : precedence ≤ required) : Hides place required bare :=
  fun hbare => (h hbare).imp id fun hlt => Nat.lt_of_lt_of_le hlt hle

/-- Text that binds no more tightly than `in` hides it only in the head of a loop. -/
theorem Hides.anywhere (h : Hides place precedence bare) (hle : precedence ≤ Precedence.membership) (required : Precedence) :
    Hides place required bare := fun hbare => .inl ((h hbare).resolve_right (Nat.not_lt.2 hle))

end Hides

/-- Types of nodes that bind more tightly than operators, among the targets of declarations. -/
def targetTypes : List String := ["Identifier", "ObjectPattern", "ArrayPattern", "MemberExpression"]

/-- Text that may still be a value of another kind. -/
def ComposedPart (copied : CopyKind → String → Prop) (bare : Bool) (j : Json) : Prop := ∀ s, j = .str s → Composed copied bare s

theorem ComposedPart.text {copied : CopyKind → String → Prop} {bare : Bool} {s : String} (h : Composed copied bare s) :
    ComposedPart copied bare (.str s) := by
  rintro _ ⟨⟩
  exact h

namespace Printable

/-- A value with composed forms. -/
structure Composes (copied : CopyKind → String → Prop) (p : Printable) : Prop where
  plain : p.source = Annotated.plain p.content
  copies : ∀ fields, p.source = .obj fields → ∀ kind, ∀ s ∈ copiedTexts fields kind, copied kind s
  statement (place : Place) : Gives (p.note.statement place) (Composed copied true)
  fragment (place : Place) :
    Gives (p.note.fragment place) fun f => ∀ bare, Hides place f.precedence bare → ComposedPart copied bare f.text
  tight (place : Place) : p.source.isOneOf targetTypes = true →
    Gives (p.note.fragment place) fun f => Precedence.membership < f.precedence

theorem composes_string {copied : CopyKind → String → Prop} (s : String) :
    (Layered.ofString s : Printable).Every (Composes copied) :=
  .intro _ ⟨rfl, fun _ h => (nomatch h), fun _ => trivial, fun _ => trivial, fun _ _ => trivial⟩ nofun nofun

end Printable

open Printable

/-- The layer of a value with composed forms. -/
structure LayerFit (copied : CopyKind → String → Prop) (l : Layer Printable) : Prop where
  every : l.Every (Composes copied)
  copies : ∀ fields, l = .obj fields → ∀ kind, ∀ s ∈ copiedTexts (Fields.mapValues Annotated.source fields) kind, copied kind s

/-- The layer of a node whose operator, if it has one, does not stand between two operands. -/
def WithoutOperands (l : Layer Printable) : Prop := ∀ fields, l = .obj fields →
  (Fields.type? (Fields.mapValues Annotated.source fields)).any operandTypes.contains = false

/-- The layer of a literal. -/
def IsLiteral (l : Layer Printable) : Prop := ∀ fields, l = .obj fields →
  Fields.type? (Fields.mapValues Annotated.source fields) = some "Literal"

section Layers

variable {copied : CopyKind → String → Prop} {p : Printable} {l : Layer Printable} {key : String}

theorem Annotated.Every.layerFit (h : p.Every (Composes copied)) : LayerFit copied (layer p) := by
  refine ⟨h.content, fun fields hl kind s hs => h.here.copies _ ?_ kind s hs⟩
  have hplain : p.source = Annotated.plain (layer p) := h.here.plain
  rw [hplain, hl]
  rfl

/-- A field of a value that has a layer of fields. -/
theorem field_source (h : p.Every (Composes copied)) {fields : Fields Printable} (hl : layer p = .obj fields) (key : String) :
    p.source.field key = ((Fields.get? key fields).map Annotated.source).getD .null := by
  have hsource : p.source = Annotated.plain (layer p) := h.here.plain
  rw [hsource, hl]
  change ((Fields.get? key (Fields.mapValues Annotated.source fields)).getD .null) = _
  rw [Fields.get?_mapValues]

/-- The value that stands in a field of a layer. -/
def Layer.Holds (l : Layer Printable) (key : String) (p : Printable) : Prop :=
  ∃ fields, l = .obj fields ∧ Fields.get? key fields = some p

namespace LayerFit

theorem require (h : LayerFit copied l) (key : String) : Gives (l.require key) (Annotated.Every (Composes copied)) :=
  h.every.require .all key

theorem optional (h : LayerFit copied l) (key : String) :
    Gives (l.optional key) fun o => ∀ p, o = some p → p.Every (Composes copied) :=
  h.every.optional .all key

theorem elements (h : LayerFit copied l) : Gives l.elements fun ps => ∀ p ∈ ps, p.Every (Composes copied) :=
  h.every.elements .all composes_string

theorem elementsOf (h : LayerFit copied l) (key : String) : Gives (l.elementsOf key) fun ps => ∀ p ∈ ps, p.Every (Composes copied) :=
  h.every.elementsOf .all composes_string key

theorem flag (key : String) : Gives (l.flag key) fun _ => True := ends_flag .all key

theorem hasType (type : String) : Gives (l.hasType type) fun _ => True := ends_hasType .all type

theorem hasTypeIn (types : List String) : Gives (l.hasTypeIn types) fun _ => True := ends_hasTypeIn .all types

/-- A text in a field. -/
theorem mem_fieldText {fields : Fields Printable} (hget : Fields.get? key fields = some p) {s : String} (hs : p.source = .str s) :
    s ∈ fieldText key (Fields.mapValues Annotated.source fields) := by
  rw [fieldText, Fields.get?_mapValues, hget, Option.map_some, hs]
  exact List.mem_singleton_self s

/-- A name, a word of a declaration or a stretch of a template is copied. -/
theorem text (h : LayerFit copied l) {kind : CopyKind} (hkey : (kind, key) ∈ [(.name, "name"), (.keyword, "kind"), (.raw, "raw")])
    (hget : l.Holds key p) {s : String} (hs : p.source = .str s) : copied kind s := by
  obtain ⟨fields, hl, hget⟩ := hget
  have hmem := mem_fieldText hget hs
  refine h.copies fields hl kind s ?_
  simp only [List.mem_cons, List.not_mem_nil, or_false, Prod.mk.injEq] at hkey
  rcases hkey with ⟨rfl, rfl⟩ | ⟨rfl, rfl⟩ | ⟨rfl, rfl⟩ <;> exact hmem

/-- The texts of a literal are copied. -/
theorem ofLiteral (h : LayerFit copied l) (htype : IsLiteral l) {fields : Fields Printable} (hl : l = .obj fields) {s : String}
    (hs : s ∈ fieldText "raw" (Fields.mapValues Annotated.source fields) ++
      ((Fields.get? "value" (Fields.mapValues Annotated.source fields)).map literalText).toList) : copied .literal s := by
  refine h.copies fields hl .literal s (List.mem_append_left _ ?_)
  rwa [if_pos (htype fields hl)]

theorem raw (h : LayerFit copied l) (htype : IsLiteral l) (hget : l.Holds "raw" p) {s : String} (hs : p.source = .str s) :
    copied .literal s := by
  obtain ⟨fields, hl, hget⟩ := hget
  exact h.ofLiteral htype hl (List.mem_append_left _ (mem_fieldText hget hs))

theorem value (h : LayerFit copied l) (htype : IsLiteral l) (hget : l.Holds "value" p) : copied .literal (literalText p.source) := by
  obtain ⟨fields, hl, hget⟩ := hget
  refine h.ofLiteral htype hl (List.mem_append_right _ ?_)
  rw [Fields.get?_mapValues, hget]
  exact List.mem_singleton_self _

/-- The texts of a directive are copied. -/
theorem ofDirective (h : LayerFit copied l) (hget : l.Holds "directive" p) {s : String} (hs : ∀ fields, l = .obj fields →
      s ∈ literalText p.source ::
        ((Json.field "expression" (.obj (Fields.mapValues Annotated.source fields))).field "raw").string?.toList) :
    copied .literal s := by
  obtain ⟨fields, hl, hget⟩ := hget
  refine h.copies fields hl .literal s (List.mem_append_right _ ?_)
  rw [Fields.get?_mapValues, hget]
  exact hs fields hl

theorem content (h : LayerFit copied l) (hget : l.Holds "directive" p) : copied .literal (literalText p.source) :=
  h.ofDirective hget fun _ _ => List.mem_cons_self

theorem written (h : LayerFit copied l) (hget : l.Holds "directive" p) {e raw : Printable} (he : l.Holds "expression" e)
    (hraw : (layer e).Holds "raw" raw) {s : String} (hs : raw.source = .str s) : copied .literal s := by
  obtain ⟨inner, hlayer, hraw⟩ := hraw
  refine h.ofDirective hget fun fields hl => List.mem_cons_of_mem _ ?_
  obtain ⟨_, hl', he⟩ := he
  cases hl.symm.trans hl'
  rw [Json.field_of_get? (v := e.source) (by rw [Fields.get?_mapValues, he]; rfl),
    field_source (h.every.fields _ hl _ (Fields.mem_of_get? he)) hlayer, hraw, Option.map_some, Option.getD_some, hs]
  exact List.mem_singleton_self s

theorem gives_source {kind : CopyKind} (hcopied : ∀ s, p.source = .str s → copied kind s) : Gives (asText p.source) (copied kind) := by
  cases hsource : p.source with
  | str s => exact hcopied s hsource
  | _ => trivial

theorem textOf (h : LayerFit copied l) {kind : CopyKind}
    (hkey : (kind, key) ∈ [(.name, "name"), (.keyword, "kind"), (.raw, "raw")]) : Gives (Printable.textOf key l) (copied kind) :=
  (ends_require .all key).bind fun _ hget => gives_source fun _ => h.text hkey hget

/-- The operator of a node without two operands is copied. -/
theorem sign (h : LayerFit copied l) (htype : WithoutOperands l) (hget : l.Holds "operator" p) {s : String}
    (hs : p.source = .str s) : copied .sign s := by
  obtain ⟨fields, hl, hget⟩ := hget
  refine h.copies fields hl .sign s ?_
  rw [copiedTexts, htype fields hl, if_neg (by decide)]
  exact mem_fieldText hget hs

theorem operator (h : LayerFit copied l) (htype : WithoutOperands l) : Gives (Printable.textOf "operator" l) (copied .sign) :=
  (ends_require .all "operator").bind fun _ hget => gives_source fun _ => h.sign htype hget

theorem name (h : LayerFit copied l) : Gives (Printable.textOf "name" l) (copied .name) := h.textOf (by simp)

theorem keyword (h : LayerFit copied l) : Gives (Printable.textOf "kind" l) (copied .keyword) := h.textOf (by simp)

/-- A stretch of a template is copied. -/
theorem stretch (h : LayerFit copied l) : Gives (Printable.textOf "raw" l) (copied .raw) := h.textOf (by simp)

theorem nameOf (h : LayerFit copied l) (key : String) : Gives (Printable.nameOf key l) (copied .name) :=
  (h.require key).bind fun _ hp => hp.layerFit.name

end LayerFit

end Layers

end ScriptTrace
