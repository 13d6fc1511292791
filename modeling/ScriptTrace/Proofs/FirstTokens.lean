import ScriptTrace.Proofs.ExpressionFronts
import ScriptTrace.Proofs.SoundPrinting

/-!
# The first tokens of statements and bodies

The text of an expression statement is not mistaken for a block or for a declaration, but for one case: the text that
would begin with `let [` is looked for with a space in it, and the printer writes none.

* `ambiguousTokens` : the tokens that no expression statement begins with;
* `opens_expressionStatement`, `gives_arrow_tokens` : the texts of a statement and of an arrow function;
* `first_tokens` : for every sound tree, that there are such texts.
-/

namespace ScriptTrace

/-! ## Statements and bodies -/

section Statements

open Printable

variable {A : Alphabet} {fields : Fields Json} {place : Place} {access : Prop} {cs : List Char} {s : String} {t : Token}

/-- A token that a text without space in front begins with is a prefix of the text. -/
theorem isPrefixOf_of_opensWith {ts : List Token} (hcs : ∀ c ∈ cs.head?, A.isSpace c = false)
    (h : A.opensWith (t :: ts) cs = true) : t.text.toList.isPrefixOf cs = true := by
  obtain ⟨rest, hafter, -⟩ := (Option.any_eq_true _ _).1 h
  obtain ⟨htext, -⟩ := Alphabet.after?_eq_some_iff.1 hafter
  rw [Alphabet.dropWhile_space hcs] at htext
  exact List.isPrefixOf_iff_prefix.2 ⟨rest, htext.symm⟩

/-- The starts that are looked for, as tokens. -/
def ambiguousTokens : List (List Token) :=
  [[.sign "\x7b"], [.word "function"], [.word "class"], [.word "async", .word "function"]]

/-- What opens with a parenthesis opens with none of these. -/
theorem opensWith_paren {ts : List Token} (hts : ts ∈ [.word "let", .sign "["] :: ambiguousTokens) (cs : List Char) :
    A.opensWith ts ('(' :: cs) = false := by
  have hall : ∀ ts ∈ [.word "let", .sign "["] :: ambiguousTokens,
      (ts.head?.any fun t => t.text.toList.head?.any (· != '(')) = true := by decide
  obtain ⟨t, ht, hhead⟩ := (Option.any_eq_true _ _).1 (hall ts hts)
  obtain ⟨us, rfl⟩ := List.head?_eq_some_iff.1 ht
  obtain ⟨c, hc, hne⟩ := (Option.any_eq_true _ _).1 hhead
  have hnone : A.after? t ('(' :: cs) = none := by
    refine Alphabet.after?_of_head (isSpace_of_not_gap (by decide)) (fun he => ?_) fun he => ?_
    · cases hc.symm.trans he
      cases hne
    · rw [he] at hc
      cases hc
  rw [Alphabet.opensWith, hnone]
  rfl

/-- An index right behind `let`. -/
theorem opensWith_let (h : "let[".toList.isPrefixOf cs = true) : A.opensWith [.word "let", .sign "["] cs = true := by
  obtain ⟨rest, rfl⟩ := List.isPrefixOf_iff_prefix.1 h
  have hspace (c : Char) (hc : isGap c = false) (cs : List Char) : (c :: cs).dropWhile A.isSpace = c :: cs :=
    List.dropWhile_cons_of_neg (by simp [isSpace_of_not_gap hc])
  have hword : A.after? (.word "let") ("let[".toList ++ rest) = some ('[' :: rest) := by
    refine Alphabet.after?_eq_some_iff.2 ⟨hspace 'l' (by decide) _, fun _ => ?_⟩
    rintro _ ⟨⟩
    rfl
  have hsign : A.after? (.sign "[") ('[' :: rest) = some rest :=
    Alphabet.after?_eq_some_iff.2 ⟨hspace '[' (by decide) _, nofun⟩
  rw [Alphabet.opensWith, hword, Option.any_some, Alphabet.opensWith, hsign]
  rfl

/-- How the text of an expression statement begins. -/
theorem opens_expressionStatement (h : Front A access (s ++ ";").toList) (hstarts : startsAmbiguously s = false) :
    (∀ ts ∈ ambiguousTokens, A.opensWith ts (s ++ ";").toList = false) ∧
    A.opensWith [.word "let", .sign "["] (s ++ ";").toList = startsWith "let[" (s ++ ";") ∧
    (startsWith "let[" (s ++ ";") = true → access) := by
  have hplain : ∀ c ∈ (s ++ ";").toList.head?, A.isSpace c = false := by
    obtain ⟨c, t, hcs, -, hc⟩ := h.head
    rw [hcs]
    rintro _ ⟨⟩
    exact hc
  have hnone {p : String} (hp : p ∈ ambiguousStarts) : startsWith p (s ++ ";") = false := by
    refine Bool.eq_false_iff.2 fun hstart => not_prefix_of_starts hstarts hp (u := []) ?_
    have htext : (s ++ ";").toList = s.toList ++ [';'] := String.toList_append ..
    exact htext ▸ List.isPrefixOf_iff_prefix.1 hstart
  refine ⟨fun ts hts => ?_, ?_, fun hlet => (h.let_index (opensWith_let hlet)).1⟩
  · by_contra hopens
    rw [Bool.not_eq_false] at hopens
    simp only [ambiguousTokens, List.mem_cons, List.not_mem_nil, or_false] at hts
    rcases hts with rfl | rfl | rfl | rfl
    · exact absurd (isPrefixOf_of_opensWith hplain hopens) (Bool.eq_false_iff.1 (hnone (by decide)))
    · exact absurd (isPrefixOf_of_opensWith hplain hopens) (Bool.eq_false_iff.1 (hnone (by decide)))
    · exact absurd (isPrefixOf_of_opensWith hplain hopens) (Bool.eq_false_iff.1 (hnone (by decide)))
    · exact absurd (h.async_function hopens) (Bool.eq_false_iff.1 (hnone (by decide)))
  · exact Bool.eq_iff_iff.2 ⟨fun hopens => (h.let_index hopens).2, opensWith_let⟩

/-- The text of a worded expression statement. -/
theorem gives_expressionStatement_tokens (hworded : (Json.obj fields).Worded A)
    (htype : Fields.type? fields = some "ExpressionStatement")
    (hdirective : (Json.field "directive" (.obj fields)).truthy = false) :
    Gives (expressionStatement place (printed fields)) fun text =>
      (∀ ts ∈ ambiguousTokens, A.opensWith ts text.toList = false) ∧
      A.opensWith [.word "let", .sign "["] text.toList = startsWith "let[" text ∧
      (startsWith "let[" text = true → StartsAtLet (.obj fields)) := by
  refine (gives_expressionStatement_front hworded htype hdirective).mono fun text ⟨s, htext, hstarts, hfront⟩ => ?_
  subst htext
  exact opens_expressionStatement (by simpa using hfront []) hstarts

/-- The text of a worded arrow function with an expression for a body. -/
theorem gives_arrow_tokens (hworded : (Json.obj fields).Worded A)
    (htype : Fields.type? fields = some "ArrowFunctionExpression")
    (hbody : (Json.field "body" (.obj fields)).type? ≠ some "BlockStatement") :
    Gives (arrow place (printed fields)) fun text => ∃ ps body, params place (printed fields) = .ok ps ∧
      text = (if (Json.field "async" (.obj fields)).truthy then "async " else "") ++ ps ++ " => " ++ body ∧
      A.opensWith [.sign "\x7b"] body.toList = false := by
  unfold arrow
  refine (gives_flag "async").bind fun async hasync => (gives_result _).bind fun ps hps => ?_
  refine (gives_found "body").bind fun p ⟨v, hv, hp⟩ => ?_
  subst hp
  rw [Json.field_of_get? hv] at hbody
  refine (gives_hasType v "BlockStatement").bind fun isBlock hblock => ends_ite (fun h => absurd (hblock h) hbody) fun _ => ?_
  refine (gives_result _).bind fun j hj => ?_
  split
  · next s =>
    have hspelling : Grammar.isSpelling fields "body" = false := by
      rw [Grammar.isSpelling, htype]
      rfl
    have hname := hworded.not_reserved hv hspelling v (List.mem_cons_self ..)
    have hfront : Front A True (s.toList ++ []) :=
      front_part ((hworded.field hv).leads hname) hj rfl (fun _ => trivial) fun _ _ => trivial
    rw [List.append_nil] at hfront
    refine ends_pure.2 ⟨ps, _, hps, by rw [hasync], ?_⟩
    split
    · have htext : ("(" ++ s ++ ")").toList = '(' :: (s.toList ++ [')']) := by
        rw [String.append_assoc]
        simp
      rw [htext]
      exact opensWith_paren (by decide) _
    · next hbrace =>
      obtain ⟨c, t, hcs, -, hc⟩ := hfront.head
      by_contra hopens
      rw [Bool.not_eq_false] at hopens
      refine hbrace (isPrefixOf_of_opensWith ?_ hopens)
      rw [hcs]
      rintro _ ⟨⟩
      exact hc
  · trivial

end Statements

/-- For every sound tree whose names are words that are not reserved: an expression statement without a directive has a
text, which begins with none of the tokens that begin a block, a function or a class, whatever space is between them.
It begins with `let` and a bracket only where nothing is between the two, which asks for a member of `let` under a computed
key at the front of the expression. An arrow function with an expression for a body has a text, in which the body does
not begin with a brace. -/
theorem first_tokens {A : Alphabet} {j : Json} (hsound : j.Sound) (hworded : j.Worded A) (place : Place) :
    (j.type? = some "ExpressionStatement" → (j.field "directive").truthy = false →
      ∃ text, (printable j).statement place = .ok text ∧ (∀ ts ∈ ambiguousTokens, A.opensWith ts text.toList = false) ∧
        A.opensWith [.word "let", .sign "["] text.toList = startsWith "let[" text ∧
        (startsWith "let[" text = true → StartsAtLet j)) ∧
    (j.type? = some "ArrowFunctionExpression" → (j.field "body").type? ≠ some "BlockStatement" →
      ∃ ps body, Printable.params place (layer (printable j)) = .ok ps ∧
        (printable j).fragment place = .ok ⟨.str ((if (j.field "async").truthy then "async " else "") ++ ps ++ " => " ++ body),
          .assign⟩ ∧
        A.opensWith [.sign "\x7b"] body.toList = false) := by
  constructor
  · intro htype hdirective
    obtain ⟨text, htext⟩ := hsound.exists_statement (by rw [Json.isOneOf, htype]; rfl) place
    obtain ⟨fields, rfl, hfields⟩ := Json.exists_fields_of_type? htype
    have hprinted : Printable.expressionStatement place (printed fields) = .ok text :=
      (statement_printed hfields place).symm.trans htext
    have hgives := hprinted ▸ gives_expressionStatement_tokens hworded hfields hdirective
    exact ⟨text, htext, hgives⟩
  · intro htype hbody
    obtain ⟨f, hf⟩ := hsound.exists_fragment (by rw [Json.isOneOf, htype]; rfl) place
    obtain ⟨fields, rfl, hfields⟩ := Json.exists_fields_of_type? htype
    have hfragment : (printable (.obj fields)).fragment place =
        (do return Printable.fragmentWith .assign (← Printable.arrow place (printed fields))) := fragment_printed hfields place
    obtain ⟨text, harrow, hpure⟩ := bind_eq_ok.1 (hfragment.symm.trans hf)
    have hgives := harrow ▸ gives_arrow_tokens hworded hfields hbody
    obtain ⟨ps, body, hps, rfl, hopens⟩ := hgives
    refine ⟨ps, body, by rw [layer_printable]; exact hps, ?_, hopens⟩
    rw [hf, ← hpure]
    rfl

/-- The statement `async in function () {};`. -/
def asyncStatement : Json :=
  let body : Json := .obj [("type", .str "BlockStatement"), ("body", .arr [])]
  let right : Json := .obj [("type", .str "FunctionExpression"), ("id", .null), ("params", .arr []), ("body", body)]
  .expressionStatement (.obj [("type", .str "BinaryExpression"), ("operator", .str "in"), ("left", .ident (.str "async")),
    ("right", right)])

/-- The arrow function `() => ({})`. -/
def objectArrow : Json :=
  .obj [("type", .str "ArrowFunctionExpression"), ("id", .null), ("params", .arr []),
    ("body", .obj [("type", .str "ObjectExpression"), ("properties", .arr [])])]

theorem first_tokens_instances :
    (∃ text, (printable asyncStatement).statement .top = .ok text ∧
      ∀ ts ∈ ambiguousTokens, Alphabet.ascii.opensWith ts text.toList = false) ∧
    ∃ ps body, Printable.params .top (layer (printable objectArrow)) = .ok ps ∧
      (printable objectArrow).fragment .top = .ok ⟨.str ("" ++ ps ++ " => " ++ body), .assign⟩ ∧
      Alphabet.ascii.opensWith [.sign "\x7b"] body.toList = false := by
  have hstatement : asyncStatement.Sound := Json.sound_iff.2 ⟨by decide +kernel, by decide +kernel⟩
  have harrow : objectArrow.Sound := Json.sound_iff.2 ⟨by decide +kernel, by decide +kernel⟩
  have hworded : asyncStatement.Worded .ascii ∧ objectArrow.Worded .ascii := by decide +kernel
  obtain ⟨text, htext, hopens, -⟩ := (first_tokens hstatement hworded.1 .top).1 rfl rfl
  exact ⟨⟨text, htext, hopens⟩, (first_tokens harrow hworded.2 .top).2 rfl (by decide)⟩

/-- The statement `(let)[0] = 1;`. -/
def letStatement : Json :=
  let index : Json := .obj [("type", .str "MemberExpression"), ("computed", .bool true), ("object", .ident (.str "let")),
    ("property", .literal (.int 0))]
  .expressionStatement (.obj [("type", .str "AssignmentExpression"), ("operator", .str "="), ("left", index),
    ("right", .literal (.int 1))])

/-- An index behind `let` is printed without a space, and no parentheses are put around the statement. -/
theorem let_index_unparenthesized :
    letStatement.Sound ∧ letStatement.Worded .ascii ∧ (letStatement.field "directive").truthy = false ∧
      (printable letStatement).statement .top = .ok "let[0] = 1;" ∧
      Alphabet.ascii.opensWith [.word "let", .sign "["] "let[0] = 1;".toList = true :=
  ⟨Json.sound_iff.2 ⟨by decide +kernel, by decide +kernel⟩, by decide +kernel, rfl, ok_of_toOption (by decide +kernel),
    by decide +kernel⟩

end ScriptTrace
