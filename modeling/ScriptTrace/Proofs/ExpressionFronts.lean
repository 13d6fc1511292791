import Mathlib.Data.Bool.AllAny
import ScriptTrace.Proofs.TextFronts
import ScriptTrace.Proofs.WordedTrees

/-!
# The fronts of expressions

Whatever expression a text is printed for, it begins with one of a few words and signs, with a literal, or with a name,
and the text behind a name or a word by itself is one that can stand there. Nothing else is to be known of a text for
telling what its first tokens are.

* `Front` : what an expression and the text behind it begin with; `followsName` : what may stand behind a name;
* `Front.after?_cases`, `Front.let_index`, `Front.async_function` : the words that such a text begins with;
* `Json.Worded.leads` : the text of every worded expression has a front;
* `gives_expressionStatement_front` : so has that of every expression statement.
-/

namespace ScriptTrace

/-! ## The front of an expression -/

/-- What expressions can begin with that are no names: signs, words in front of a space, and others that nothing belongs
to. -/
def frontWords : List String :=
  openers ++ ["new.", "import.", "-", "+", "!", "~", "typeof ", "void ", "delete ", "++", "--"]

def loneWords : List String := ["this", "super", "yield", "null", "true", "false"]

/-- Whether a text can stand behind a name: the end, a sign that goes on an expression, or one behind a space. -/
def followsName : List Char → Bool
  | [] => true
  | ' ' :: c :: _ => "?=|&^!<>i+-*/%".toList.contains c
  | c :: _ => ".[(\x60;,)+-".toList.contains c

/-- What an expression and the text behind it begin with; `access` is what an index behind the name `let` takes. -/
inductive Front (A : Alphabet) (access : Prop) : List Char → Prop
  | own {w : String} {t : List Char} : w ∈ frontWords → Front A access (w.toList ++ t)
  | literal {c : Char} {t : List Char} : Grammar.isLiteralStart c = true → Front A access (c :: t)
  | word {w : String} {u : List Char} : w ∈ loneWords → followsName u = true → Front A access (w.toList ++ u)
  | name {n : String} {u : List Char} : (Token.word n).Proper A → n ∉ reservedWords → followsName u = true →
    (n = "let" → u.head? = some '[' → access) → Front A access (n.toList ++ u)
  | operand {w : String} {c : Char} {t : List Char} : w ∈ ["await ", "yield "] → c ≠ ':' → A.isSpace c = false →
    Front A access (w.toList ++ c :: t)

section Fronts

variable {A : Alphabet} {access : Prop} {cs rest u : List Char} {c : Char} {k : String}

/-- What stands behind a name. -/
theorem followsName_cases (h : followsName u = true) : u = [] ∨
    (∃ c t, u = ' ' :: c :: t ∧ c ∈ "?=|&^!<>i+-*/%".toList) ∨ ∃ c t, u = c :: t ∧ c ∈ ".[(\x60;,)+-".toList := by
  unfold followsName at h
  split at h
  · exact .inl rfl
  · exact .inr (.inl ⟨_, _, rfl, List.contains_iff_mem.1 h⟩)
  · exact .inr (.inr ⟨_, _, rfl, List.contains_iff_mem.1 h⟩)

/-- A name ends where something can stand behind it. -/
theorem not_part_of_followsName (h : followsName u = true) : ∀ c ∈ u.head?, A.isPart c = false := by
  have hall : ∀ c ∈ ".[(\x60;,)+-".toList, c.toNat < 128 ∧ Alphabet.ascii.isPart c = false :=
    List.all_iff_forall_prop.1 (by decide)
  rcases followsName_cases h with rfl | ⟨c, t, rfl, -⟩ | ⟨c, t, rfl, hc⟩
  · nofun
  · rintro _ ⟨⟩
    rfl
  · rintro _ ⟨⟩
    rw [Alphabet.isPart_ascii (hall c hc).1, (hall c hc).2]

/-- What stands behind a name begins with a bracket right there, or with no token that begins with another character. -/
theorem after?_of_followsName {t : Token} (h : followsName u = true) (hafter : A.after? t u = some rest)
    (hstart : t.text.toList.head?.any ("?=|&^!<>i+-*/%".toList ++ ".(\x60;,)+-".toList).contains = false) (hne : t.text ≠ "") :
    t.text.toList.head? = some '[' ∧ u.head? = some '[' := by
  have hspaces : ∀ c ∈ "?=|&^!<>i+-*/%".toList ++ ".[(\x60;,)+-".toList, isGap c = false :=
    List.all_iff_forall_prop.1 (by decide)
  have hhead {c : Char} {cs : List Char} (hc : c ∈ "?=|&^!<>i+-*/%".toList ++ ".[(\x60;,)+-".toList)
      (hafter : A.after? t (c :: cs) = some rest) : t.text.toList.head? = some c := by
    by_contra hclash
    rw [Alphabet.after?_of_head (isSpace_of_not_gap (hspaces c hc)) hclash hne] at hafter
    cases hafter
  have hother {c : Char} (hc : t.text.toList.head? = some c) : c ∉ "?=|&^!<>i+-*/%".toList ++ ".(\x60;,)+-".toList := by
    rw [hc, Option.any_some] at hstart
    exact fun hmem => absurd (List.contains_iff_mem.2 hmem) (Bool.eq_false_iff.1 hstart)
  rcases followsName_cases h with rfl | ⟨c, cs, rfl, hc⟩ | ⟨c, cs, rfl, hc⟩
  · rw [Alphabet.after?_nil hne] at hafter
    cases hafter
  · rw [Alphabet.after?_space rfl] at hafter
    exact absurd (List.mem_append_left _ hc) (hother (hhead (List.mem_append_left _ hc) hafter))
  · have hstarts := hhead (List.mem_append_right _ hc) hafter
    have hbracket : c = '[' := by
      by_contra hne
      have hmem : ∀ d ∈ ".[(\x60;,)+-".toList, d = '[' ∨ d ∈ ".(\x60;,)+-".toList :=
        List.all_iff_forall_prop.1 (by decide)
      exact hother hstarts (List.mem_append_right _ ((hmem c hc).resolve_left hne))
    rw [hstarts, hbracket]
    exact ⟨rfl, rfl⟩

/-- Signs that no expression begins with. -/
def neverFirst : List Char := [':', ';', '\x7d']

theorem literalStart_plain (h : Grammar.isLiteralStart c = true) : c ∉ neverFirst ∧ A.isSpace c = false := by
  have hall : ∀ c ∈ "0123456789\"'.-/".toList, c ∉ neverFirst ∧ isGap c = false := List.all_iff_forall_prop.1 (by decide)
  obtain ⟨hnever, hgap⟩ := hall c (List.contains_iff_mem.1 h)
  exact ⟨hnever, isSpace_of_not_gap hgap⟩

theorem wordStart_plain (h : A.isStart c = true) : c ∉ neverFirst ∧ A.isSpace c = false := by
  refine ⟨fun hmem => ?_, isSpace_of_isStart h⟩
  simp only [neverFirst, List.mem_cons, List.not_mem_nil, or_false] at hmem
  rcases hmem with rfl | rfl | rfl <;> cases h

/-- What an expression begins with is no space and none of these signs. -/
theorem Front.head (h : Front A access cs) : ∃ c t, cs = c :: t ∧ c ∉ neverFirst ∧ A.isSpace c = false := by
  have hword {w : String} (t : List Char) (hw : w.toList.head?.any (fun c => !neverFirst.contains c && !isGap c) = true) :
      ∃ c u, w.toList ++ t = c :: u ∧ c ∉ neverFirst ∧ A.isSpace c = false := by
    obtain ⟨c, hc, hplain⟩ := (Option.any_eq_true _ _).1 hw
    obtain ⟨cs, hcs⟩ := List.head?_eq_some_iff.1 hc
    rw [Bool.and_eq_true, Bool.not_eq_true', Bool.not_eq_true'] at hplain
    exact ⟨c, cs ++ t, by rw [hcs, List.cons_append], by simpa using hplain.1, isSpace_of_not_gap hplain.2⟩
  have hall : ∀ w ∈ frontWords ++ loneWords ++ ["await ", "yield "],
      w.toList.head?.any (fun c => !neverFirst.contains c && !isGap c) = true := by decide
  cases h with
  | own hw => exact hword _ (hall _ (List.mem_append_left _ (List.mem_append_left _ hw)))
  | @literal c t hc => exact ⟨c, t, rfl, literalStart_plain hc⟩
  | word hw => exact hword _ (hall _ (List.mem_append_left _ (List.mem_append_right _ hw)))
  | name hproper =>
    obtain ⟨⟨c, cs, hcs, hstart⟩, -⟩ := hproper.word_chars
    exact ⟨c, _, by rw [hcs, List.cons_append], wordStart_plain hstart⟩
  | operand hw => exact hword _ (hall _ (List.mem_append_right _ hw))

/-- Whether one of two texts begins with the other. -/
def meets (k w : String) : Bool := w.toList.isPrefixOf k.toList || k.toList.isPrefixOf w.toList

/-- Whether a word is told from the literals and the words of their own that expressions begin with. -/
def isToldApart (k : String) : Bool :=
  ["await ", "yield "].all (fun w => !meets k w) && !k.toList.head?.any Grammar.isLiteralStart && !loneWords.contains k &&
    k != "" && k.toList.all fun c => decide (c.toNat < 128) && Alphabet.ascii.isPart c

/-- An expression that begins with a word begins with a name, or with a sign or word that begins so. -/
theorem Front.after?_cases (h : Front A access cs) (hk : isToldApart k = true) (hafter : A.after? (.word k) cs = some rest) :
    (∃ w ∈ frontWords.filter (meets k), ∃ t, cs = w.toList ++ t) ∨
    (k ∉ reservedWords ∧ followsName rest = true ∧ cs = k.toList ++ rest ∧ (k = "let" → rest.head? = some '[' → access)) := by
  simp only [isToldApart, Bool.and_eq_true, Bool.not_eq_true', bne_iff_ne] at hk
  obtain ⟨⟨⟨⟨hwords, hliteral⟩, hlone⟩, hne⟩, hpart⟩ := hk
  have hkpart : ∀ c ∈ k.toList, A.isPart c = true := isPart_of_all hpart
  have hspaces : ∀ w ∈ frontWords ++ ["await ", "yield "], w.toList.head?.any isGap = false := by decide
  have hclash {w : String} {t : List Char} (hw : w ∈ frontWords ++ ["await ", "yield "]) (hmeets : meets k w = false) :
      A.after? (.word k) (w.toList ++ t) = none := by
    obtain ⟨hwk, hkw⟩ := Bool.or_eq_false_iff.1 hmeets
    exact Alphabet.after?_of_clash (isSpace_of_head (hspaces w hw)) hwk hkw
  cases h with
  | @own w t hw =>
    refine .inl ⟨w, List.mem_filter.2 ⟨hw, ?_⟩, t, rfl⟩
    by_contra hmeets
    rw [hclash (List.mem_append_left _ hw) (Bool.eq_false_iff.2 hmeets)] at hafter
    cases hafter
  | @literal c t hc =>
    have hhead : (Token.word k).text.toList.head? ≠ some c := fun he => by
      rw [show k.toList.head? = some c from he, Option.any_some, hc] at hliteral
      cases hliteral
    rw [Alphabet.after?_of_head (literalStart_plain hc).2 hhead hne] at hafter
    cases hafter
  | @word w u hw hu =>
    have hparts : ∀ w ∈ loneWords, w ≠ "" ∧ w.toList.all (fun c => decide (c.toNat < 128) && Alphabet.ascii.isPart c) = true ∧
        w.toList.head?.any isGap = false := by decide
    obtain ⟨hwne, hwpart, hspace⟩ := hparts w hw
    rw [Alphabet.after?_word (isSpace_of_head hspace) hwne hkpart (isPart_of_all hwpart)
      (not_part_of_followsName hu)] at hafter
    obtain ⟨rfl, -⟩ := Option.ite_none_right_eq_some.1 hafter
    rw [List.contains_iff_mem.2 hw] at hlone
    cases hlone
  | @name n u hproper hreserved hu haccess =>
    obtain ⟨⟨c, cs, hcs, hstart⟩, hparts⟩ := hproper.word_chars
    have hspace : ∀ d ∈ n.toList.head?, A.isSpace d = false := by
      rw [hcs]
      rintro _ ⟨⟩
      exact (wordStart_plain hstart).2
    have hnne : n ≠ "" := by
      rintro rfl
      cases hcs
    rw [Alphabet.after?_word hspace hnne hkpart hparts (not_part_of_followsName hu)] at hafter
    obtain ⟨rfl, hrest⟩ := Option.ite_none_right_eq_some.1 hafter
    cases hrest
    exact .inr ⟨hreserved, hu, rfl, haccess⟩
  | operand hw =>
    have hmeets := List.all_eq_true.1 hwords _ hw
    rw [hclash (List.mem_append_right _ hw) (by simpa using hmeets)] at hafter
    cases hafter

/-- An expression that begins with a word that no sign or word of its own begins with begins with this name. -/
theorem Front.name_of_after? (h : Front A access cs) (hk : isToldApart k = true) (hnone : frontWords.filter (meets k) = [])
    (hafter : A.after? (.word k) cs = some rest) :
    k ∉ reservedWords ∧ followsName rest = true ∧ cs = k.toList ++ rest ∧ (k = "let" → rest.head? = some '[' → access) := by
  refine (h.after?_cases hk hafter).resolve_left ?_
  rw [hnone]
  nofun

/-- An index behind the name `let` comes right behind it. -/
theorem Front.let_index (h : Front A access cs) (hopens : A.opensWith [.word "let", .sign "["] cs = true) :
    access ∧ "let[".toList.isPrefixOf cs = true := by
  obtain ⟨rest, hafter, hrest⟩ := (Option.any_eq_true _ _).1 hopens
  obtain ⟨inner, hindex, -⟩ := (Option.any_eq_true _ _).1 hrest
  obtain ⟨-, hfollows, rfl, haccess⟩ := h.name_of_after? (by decide) (by decide) hafter
  obtain ⟨-, hhead⟩ := after?_of_followsName hfollows hindex (by decide) (by decide)
  obtain ⟨tail, rfl⟩ := List.head?_eq_some_iff.1 hhead
  exact ⟨haccess rfl hhead, rfl⟩

/-- The words `async` and `function` at the front have one space between them. -/
theorem Front.async_function (h : Front A access cs) (hopens : A.opensWith [.word "async", .word "function"] cs = true) :
    "async function".toList.isPrefixOf cs = true := by
  obtain ⟨rest, hafter, hrest⟩ := (Option.any_eq_true _ _).1 hopens
  obtain ⟨inner, hfunction, -⟩ := (Option.any_eq_true _ _).1 hrest
  have hwords : frontWords.filter (meets "async") = ["async (", "async function"] := by decide
  rcases h.after?_cases (by decide) hafter with ⟨w, hw, t, rfl⟩ | ⟨-, hfollows, -, -⟩
  · rw [hwords] at hw
    rcases List.mem_pair.1 hw with rfl | rfl
    · -- the parameters of an arrow function
      obtain ⟨htext, -⟩ := Alphabet.after?_eq_some_iff.1 hafter
      have hspace : A.isSpace 'a' = false := isSpace_of_not_gap (by decide)
      have hfront : "async (".toList ++ t = 'a' :: ("sync (".toList ++ t) := rfl
      rw [hfront, List.dropWhile_cons_of_neg (by simp [hspace])] at htext
      have hrest : rest = ' ' :: '(' :: t := (@List.append_cancel_left _ "async".toList _ _ htext).symm
      rw [hrest, Alphabet.after?_space rfl, Alphabet.after?_of_head (isSpace_of_not_gap (by decide)) (by decide) (by decide)]
        at hfunction
      cases hfunction
    · exact List.isPrefixOf_iff_prefix.2 (List.prefix_append _ _)
  · obtain ⟨hhead, -⟩ := after?_of_followsName hfollows hfunction (by decide) (by decide)
    cases hhead

end Fronts

/-! ## Every expression begins so -/

/-- The name `let`. -/
def IsLetName (v : Json) : Prop := v.type? = some "Identifier" ∧ v.get? "name" = some (.str "let")

/-- A member of `let` under a computed key, or a node whose first part begins so. -/
inductive StartsAtLet : Json → Prop
  | here {fields : Fields Json} {v : Json} : Fields.type? fields = some "MemberExpression" →
    (Json.field "computed" (.obj fields)).truthy = true → Fields.get? "object" fields = some v → IsLetName v →
    StartsAtLet (.obj fields)
  | lead {fields : Fields Json} {type key : String} {v : Json} : Fields.type? fields = some type →
    leadKey type = some key → Fields.get? key fields = some v → StartsAtLet v → StartsAtLet (.obj fields)
  | first {fields : Fields Json} {v : Json} {vs : List Json} : Fields.type? fields = some "SequenceExpression" →
    Fields.get? "expressions" fields = some (.arr (v :: vs)) → StartsAtLet v → StartsAtLet (.obj fields)

/-- The text of the expression, with anything behind it that can stand behind a name, has the front of one. -/
def Leads (A : Alphabet) (v : Json) (s : String) : Prop :=
  ∀ (access : Prop) (u : List Char), followsName u = true → (StartsAtLet v → access) →
    (IsLetName v → u.head? = some '[' → access) → Front A access (s.toList ++ u)

section Leading

open Printable

variable {A : Alphabet} {fields : Fields Json} {type key s : String} {place : Place} {v : Json} {required : Precedence}
  {access : Prop} {u : List Char}

/-- The text of a part stands as it is, or in parentheses. -/
theorem leads_part (h : ∀ place, Gives ((printable v).fragment place) fun f => ∀ s, f.text = .str s → Leads A v s)
    (hs : (printable v).expression place required = .ok (.str s)) : Leads A v s ∨ ∃ t, s = "(" ++ t := by
  have hgives : Gives ((printable v).expression place required) fun j => ∀ s, j = .str s → Leads A v s ∨ ∃ t, s = "(" ++ t := by
    refine (h place).bind fun f hf => ends_ite (fun _ => gives_then fun t => ends_pure.2 ?_) fun _ => ?_
    · rintro _ ⟨⟩
      exact .inr ⟨t ++ ")", String.append_assoc ..⟩
    · exact ends_pure.2 fun s hs => .inl (hf s hs)
  rw [hs] at hgives
  exact hgives s rfl

/-- An operator between spaces. -/
theorem followsName_operator {operator : String} {t : List Char}
    (h : operator.toList.head?.any "?=|&^!<>i+-*/%".toList.contains = true) :
    followsName ((" " ++ operator ++ " ").toList ++ t) = true := by
  obtain ⟨c, hc, hmem⟩ := (Option.any_eq_true _ _).1 h
  obtain ⟨cs, hcs⟩ := List.head?_eq_some_iff.1 hc
  have htext : (" " ++ operator ++ " ").toList ++ t = ' ' :: c :: (cs ++ ' ' :: t) := by
    rw [String.toList_append, String.toList_append, hcs]
    simp
  rw [htext]
  exact hmem

theorem head_of_binary {operator : String} (h : (Precedence.binary? operator).isSome = true) :
    operator.toList.head?.any "?=|&^!<>i+-*/%".toList.contains = true := by
  unfold Precedence.binary? at h
  split at h
  all_goals first
    | decide
    | cases h

/-- What stands behind a first part can stand behind a name. -/
theorem Behind.followsName {sign : String} (h : Behind fields type sign) (hworded : (Json.obj fields).Worded A)
    (htype : Fields.type? fields = some type) (t : List Char) : followsName (sign.toList ++ t) = true := by
  cases h with
  | binary _ _ hknown => exact followsName_operator (head_of_binary hknown)
  | assignment hsign =>
    obtain ⟨operator, rfl⟩ := (hworded.operator htype hsign).2.2 rfl
    exact followsName_operator (by cases operator <;> decide)
  | update hsign =>
    obtain ⟨operator, rfl⟩ := (hworded.operator htype hsign).2.1 rfl
    cases operator <;> rfl
  | _ => rfl

theorem leadKey_not_spelling (htype : Fields.type? fields = some type) (h : leadKey type = some key) :
    Grammar.isSpelling fields key = false := by
  have hall : ∀ g ∈ [(["TaggedTemplateExpression"], "tag"), (["MemberExpression"], "object"), (["CallExpression"], "callee"),
      (["BinaryExpression", "LogicalExpression", "AssignmentExpression", "AssignmentPattern"], "left"),
      (["ConditionalExpression"], "test"), (["UpdateExpression"], "argument"), (["ExpressionStatement"], "expression")],
      "MetaProperty" ∉ g.1 ∧ ["property", "key"].contains g.2 = false := by decide
  obtain ⟨g, hg, hmem, rfl⟩ := ofGroup_mem_types h
  obtain ⟨hmeta, hkey⟩ := hall g hg
  rw [Grammar.isSpelling, htype, hkey, Bool.false_and, Bool.or_false, beq_eq_false_iff_ne]
  rintro ⟨⟩
  exact hmeta hmem

/-- The printed text of a literal. -/
theorem literalSource_of_printed (hs : literal (printed fields) = .ok (.str s)) : Grammar.literalSource fields = s := by
  have hnone (o : Option Json) (h : (o.filter fun v => !v.isNull) = none) : o.getD .null = .null := by
    cases o with
    | none => rfl
    | some v => cases v <;> simp_all [Json.isNull]
  rw [literal, optional_field, optional_field, ok_bind] at hs
  rw [Grammar.literalSource, Json.field, Json.field, Json.get?, Json.get?]
  cases hraw : (Fields.get? "raw" fields).filter fun v => !v.isNull with
  | none =>
    rw [hraw, Option.map_none] at hs
    rw [hnone _ hraw]
    have hvalue : ((((Fields.get? "value" fields).filter fun v => !v.isNull).map printable).map Annotated.source).getD .null =
        (Fields.get? "value" fields).getD .null := by
      cases hv : (Fields.get? "value" fields).filter fun v => !v.isNull with
      | none => rw [hnone _ hv]; rfl
      | some value =>
        obtain ⟨hget, -⟩ := Option.filter_eq_some_iff.1 hv
        rw [hget]
        exact Json.source_annotate forms value
    simp only [ok_bind, hvalue, pure_eq_ok, Except.ok.injEq, Json.str.injEq] at hs
    exact hs
  | some raw =>
    rw [hraw] at hs
    obtain ⟨hget, -⟩ := Option.filter_eq_some_iff.1 hraw
    rw [hget, Option.getD_some]
    have hsource : raw = .str s := by
      rw [← Json.source_annotate forms raw]
      exact Except.ok.inj hs
    rw [hsource]
    rfl

/-- A literal with something behind it that can stand behind a name. -/
theorem front_literal (h : Grammar.isLiteralText s = true) (hu : followsName u = true) : Front A access (s.toList ++ u) := by
  rcases Bool.or_eq_true_iff.1 h with hword | hstart
  · exact .word (List.mem_append_right ["this", "super", "yield"] (List.contains_iff_mem.1 hword)) hu
  · obtain ⟨c, hc, hstart⟩ := (Option.any_eq_true _ _).1 hstart
    obtain ⟨cs, hcs⟩ := List.head?_eq_some_iff.1 hc
    rw [hcs]
    exact .literal hstart

/-- A part of a node with something behind it that can stand behind a name. -/
theorem front_part (h : ∀ place, Gives ((printable v).fragment place) fun f => ∀ s, f.text = .str s → Leads A v s)
    (hs : (printable v).expression place required = .ok (.str s)) (hu : followsName u = true) (haccess : StartsAtLet v → access)
    (hlet : IsLetName v → u.head? = some '[' → access) : Front A access (s.toList ++ u) := by
  rcases leads_part h hs with h | ⟨t, rfl⟩
  · exact h access u hu haccess hlet
  · rw [String.toList_append, List.append_assoc]
    exact .own (by decide)

/-- An expression whose parts have such a front has one. -/
theorem leads_frontOf (hworded : (Json.obj fields).Worded A) (htype : Fields.type? fields = some type)
    (hname : (Json.obj fields).isReservedName = false)
    (hparts : ∀ key v, Fields.get? key fields = some v → Grammar.isSpelling fields key = false → ∀ x ∈ v :: v.items,
      ∀ place, Gives ((printable x).fragment place) fun f => ∀ s, f.text = .str s → Leads A x s)
    (hs : FrontOf type fields place s) : Leads A (.obj fields) s := by
  have hitem {v : Json} {vs : List Json} (hsequence : type = "SequenceExpression")
      (hitems : Fields.get? "expressions" fields = some (.arr (v :: vs))) :
      ∀ place, Gives ((printable v).fragment place) fun f => ∀ s, f.text = .str s → Leads A v s := by
    refine hparts _ _ hitems ?_ v (List.mem_cons_of_mem _ (List.mem_cons_self ..))
    rw [Grammar.isSpelling, htype, hsequence]
    rfl
  intro access u hu haccess hlet
  cases hs with
  | own hown =>
    obtain ⟨w, hw, t, rfl⟩ := hown
    rw [String.toList_append, List.append_assoc]
    exact .own (List.mem_append_left _ hw)
  | word hword => exact .word (List.mem_append_left ["null", "true", "false"] hword) hu
  | name htype' hget =>
    subst htype'
    exact .name (hworded.name htype hget) (Json.not_mem_reservedWords hname htype hget) hu fun he => hlet ⟨htype, he ▸ hget⟩
  | @metaName v n t htype' hv hget =>
    have hall : ∀ n ∈ ["new", "import"], n ++ "." ∈ frontWords := by decide
    rw [String.toList_append, List.append_assoc]
    exact .own (hall n (hworded.metaName (htype' ▸ htype) hv hget))
  | literal htype' hs =>
    have hliteral := hworded.literal (htype' ▸ htype)
    rw [literalSource_of_printed hs] at hliteral
    exact front_literal hliteral hu
  | @operator sign t hmem hsign hspace =>
    obtain ⟨hunary, hupdate, -⟩ := hworded.operator htype hsign
    rcases List.mem_pair.1 hmem with htype' | htype'
    · obtain ⟨operator, rfl⟩ := hunary htype'
      have hword := hspace htype'
      cases operator with
      | typeof | void | delete =>
        obtain ⟨t, rfl⟩ := hword (by decide) (by decide)
        rw [← String.append_assoc, String.toList_append, List.append_assoc]
        exact .own (by decide)
      | _ =>
        rw [String.toList_append, List.append_assoc]
        exact .own (by decide)
    · obtain ⟨operator, rfl⟩ := hupdate htype'
      rw [String.toList_append, List.append_assoc]
      exact .own (by cases operator <;> decide)
  | @operand w s' htype' hw hpart =>
    obtain ⟨v, required, hv, hs⟩ := hpart
    have hspelling : Grammar.isSpelling fields "argument" = false := by
      rw [Grammar.isSpelling, htype]
      rcases List.mem_pair.1 htype' with rfl | rfl <;> rfl
    have hfront : Front A True (s'.toList ++ u) :=
      front_part (hparts _ _ hv hspelling v (List.mem_cons_self ..)) hs hu (fun _ => trivial) fun _ _ => trivial
    obtain ⟨c, t, hc, hnever, hplain⟩ := hfront.head
    rw [String.toList_append, List.append_assoc, hc]
    exact .operand hw (fun he => hnever (he ▸ List.mem_cons_self ..)) hplain
  | @lead key s' sign t hkey hpart hbehind =>
    obtain ⟨v, required, hv, hs⟩ := hpart
    have hv' := hparts _ _ hv (leadKey_not_spelling htype hkey) v (List.mem_cons_self ..)
    rw [String.toList_append, String.toList_append, List.append_assoc, List.append_assoc]
    refine front_part hv' hs (hbehind.followsName hworded htype _) (fun h => haccess (.lead htype hkey hv h)) fun hlet hhead => ?_
    -- only an index begins with a bracket
    cases hbehind with
    | index hcomputed =>
      cases hkey
      exact haccess (.here htype hcomputed hv hlet)
    | update hsign =>
      obtain ⟨operator, rfl⟩ := (hworded.operator htype hsign).2.1 rfl
      cases operator <;> cases hhead
    | binary _ _ _ | assignment _ =>
      rw [String.toList_append, String.toList_append] at hhead
      cases hhead
    | _ => cases hhead
  | first htype' hitems hs =>
    rw [String.toList_append, String.toList_append, List.append_assoc, List.append_assoc]
    refine front_part (hitem htype' hitems) hs rfl (fun h => haccess (.first (htype' ▸ htype) hitems h)) fun _ hhead => ?_
    cases hhead
  | short htype' hnone =>
    obtain ⟨v, w, vs, hlist⟩ := hworded.sequence (htype' ▸ htype)
    exact absurd hlist (hnone v w vs)

/-- **The text of every worded expression begins like an expression**, whatever stands behind it that can stand behind
a name. By induction over the value: a field or an item of a list in one is a part. -/
theorem Json.Worded.leads {j : Json} (hworded : j.Worded A) (hname : j.isReservedName = false) : ∀ place,
    Gives ((printable j).fragment place) fun f => ∀ s, f.text = .str s → Leads A j s := by
  suffices h : ∀ x ∈ j :: j.items, x.Worded A → x.isReservedName = false → ∀ place,
      Gives ((printable x).fragment place) fun f => ∀ s, f.text = .str s → Leads A x s from
    h j (List.mem_cons_self ..) hworded hname
  clear hworded hname
  induction j using Json.ind with
  | scalar j hatom =>
    rintro x hx - - place
    cases j with
    | arr items => cases hatom
    | obj fields => cases hatom
    | _ =>
      obtain rfl := List.mem_singleton.1 hx
      trivial
  | arr items ih =>
    intro x hx hworded hname place
    rcases List.mem_cons.1 hx with rfl | hx
    · trivial
    · exact ih x hx x (List.mem_cons_self ..) hworded hname place
  | obj fields ih =>
    intro x hx hworded hname place
    obtain rfl := List.mem_singleton.1 hx
    refine gives_fragment_front.mono fun f hf s hs => ?_
    obtain ⟨type, htype, hfront⟩ := hf s hs
    refine leads_frontOf hworded htype hname (fun key v hv hspelling y hy place => ?_) hfront
    have hyWorded : y.Worded A := by
      rcases List.mem_cons.1 hy with rfl | hy
      · exact hworded.field hv
      · cases v with
        | arr items => exact (hworded.field hv).item hy
        | _ => cases hy
    exact ih (key, v) (Fields.mem_of_get? hv) y hy hyWorded (hworded.not_reserved hv hspelling y hy) place

/-- What stands in front of a character that a prefix has none of. -/
theorem prefix_of_stop {p : List Char} {c : Char} {cs : List Char} (hp : c ∉ p) (h : p <+: cs ++ c :: u) : p <+: cs := by
  have hstop : cs ++ [c] <+: cs ++ c :: u := ⟨u, by simp⟩
  rcases List.prefix_or_prefix_of_prefix h hstop with hle | hge
  · rcases List.prefix_concat_iff.1 hle with rfl | hle
    · exact absurd (List.mem_append_right _ (List.mem_singleton_self _)) hp
    · exact hle
  · exact absurd (hge.subset (List.mem_append_right _ (List.mem_singleton_self _))) hp

/-- What a text does not begin with it does not begin with in front of a semicolon. -/
theorem not_prefix_of_starts {p : String} (hstarts : startsAmbiguously s = false) (hp : p ∈ ambiguousStarts) :
    ¬ p.toList <+: s.toList ++ ';' :: u := by
  have hsemicolon : ∀ p ∈ ambiguousStarts, ';' ∉ p.toList := by decide
  intro h
  exact List.any_eq_false.1 hstarts p hp (List.isPrefixOf_iff_prefix.2 (prefix_of_stop (hsemicolon p hp) h))

theorem startsAmbiguously_paren (s : String) : startsAmbiguously ("(" ++ s ++ ")") = false := by
  have htext : ("(" ++ s ++ ")").toList = '(' :: (s.toList ++ [')']) := by
    rw [String.append_assoc]
    simp
  simp only [startsAmbiguously, startsWith, htext]
  rfl

/-- The text of a worded expression statement without a directive, up to the semicolon: it has the front of an
expression, and none of the starts that are looked for. -/
theorem gives_expressionStatement_front (hworded : (Json.obj fields).Worded A)
    (htype : Fields.type? fields = some "ExpressionStatement")
    (hdirective : (Json.field "directive" (.obj fields)).truthy = false) :
    Gives (expressionStatement place (printed fields)) fun text => ∃ s, text = s ++ ";" ∧ startsAmbiguously s = false ∧
      ∀ u, Front A (StartsAtLet (.obj fields)) (s.toList ++ ';' :: u) := by
  obtain ⟨content, hcontent, hnone⟩ := directive_printed fields
  rw [hdirective, Option.isSome_eq_false_iff, Option.isNone_iff_eq_none] at hnone
  unfold expressionStatement
  rw [hcontent, ok_bind, hnone]
  refine (gives_part "expression").bind fun p hp => (hp _).bind fun j hj => ?_
  split
  · next s =>
    obtain ⟨v, required, hv, hs⟩ := hj s rfl
    refine ends_pure.2 ⟨_, rfl, ?_⟩
    split
    · refine ⟨startsAmbiguously_paren s, fun u => ?_⟩
      rw [String.append_assoc, String.toList_append, List.append_assoc]
      exact .own (by decide)
    · next hstarts =>
      have hname := hworded.not_reserved hv (leadKey_not_spelling htype rfl) v (List.mem_cons_self ..)
      exact ⟨Bool.eq_false_iff.2 hstarts, fun u =>
        front_part ((hworded.field hv).leads hname) hs rfl (fun h => .lead htype rfl hv h) fun _ he => by cases he⟩
  · trivial

end Leading

end ScriptTrace
