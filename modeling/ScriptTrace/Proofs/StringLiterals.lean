import ScriptTrace.Proofs.ExpressionReading
import ScriptTrace.Proofs.QuotedText

/-!
# The literals of strings

The text that stands for a string in a program is one string literal of ECMAScript, and the value of this literal is
the string, whatever characters it has. So no name, condition or key ends the literal that it is put into.

* `utf16` : the units that a string consists of;
* `Syntax.escapeSequence`, `Syntax.doubleQuoted` : a literal between double quotes as ECMAScript 2019 reads it;
* `Syntax.stringValue_escapeChar` : one character of a literal;
* `token_quote` : the text is one token;
* `literalText_exact` : the literal of a string, by itself, in front of other text, and in the nodes of probes.
-/

namespace ScriptTrace

/-! ## Units -/

/-- The UTF-16 units of a code point. -/
def unitsOf (n : Nat) : List Nat :=
  if n < 0x10000 then [n] else [0xD800 + (n - 0x10000) / 0x400, 0xDC00 + (n - 0x10000) % 0x400]

/-- The UTF-16 units of a text. -/
def utf16 (s : String) : List Nat := s.toList.flatMap fun c => unitsOf c.toNat

/-- The units of a character are told from those of other characters, and end where they end. -/
theorem unitsOf_cut {c d : Char} {us vs : List Nat} (h : unitsOf c.toNat ++ us = unitsOf d.toNat ++ vs) : c = d ∧ us = vs := by
  have hc := Json.not_half c
  have hd := Json.not_half d
  have hlt : c.toNat < 0x110000 ∧ d.toNat < 0x110000 := by
    have hvalid (c : Char) : c.toNat < 0xD800 ∨ 0xDFFF < c.toNat ∧ c.toNat < 0x110000 := c.valid
    have := hvalid c
    have := hvalid d
    omega
  have heq : c.toNat = d.toNat ∧ us = vs := by
    simp only [Json.isHighUnit, Json.isLowUnit, Bool.and_eq_false_iff, decide_eq_false_iff_not] at hc hd
    unfold unitsOf at h
    -- a unit by itself is no half of a pair
    split at h <;> split at h <;> simp only [List.cons_append, List.nil_append, List.cons.injEq] at h
    · exact h
    · omega
    · omega
    · exact ⟨by omega, h.2.2⟩
  exact ⟨Char.toNat_inj.1 heq.1, heq.2⟩

theorem utf16_injective {s t : String} (h : utf16 s = utf16 t) : s = t := by
  suffices hchars : ∀ cs ds : List Char, (cs.flatMap fun c => unitsOf c.toNat) = ds.flatMap (fun c => unitsOf c.toNat) → cs = ds from
    String.toList_inj.1 (hchars _ _ h)
  have hne (c : Char) : unitsOf c.toNat ≠ [] := by
    unfold unitsOf
    split <;> simp
  intro cs
  induction cs with
  | nil =>
    rintro (_ | ⟨d, ds⟩) h
    · rfl
    · exact absurd (List.append_eq_nil_iff.1 (List.flatMap_cons ▸ h).symm).1 (hne d)
  | cons c cs ih =>
    rintro (_ | ⟨d, ds⟩) h
    · exact absurd (List.append_eq_nil_iff.1 (List.flatMap_cons ▸ h)).1 (hne c)
    · rw [List.flatMap_cons, List.flatMap_cons] at h
      obtain ⟨hcd, hrest⟩ := unitsOf_cut h
      rw [hcd, ih ds hrest]

/-! ## String literals -/

namespace Syntax

/-- Characters that end a line: a line feed, a carriage return, and the two separators. -/
def isLineEnd (c : Char) : Bool := c == '\n' || c == '\r' || c.toNat == 0x2028 || c.toNat == 0x2029

/-- The character that a letter stands for behind a backslash; others stand for themselves. -/
def escaped (c : Char) : Char :=
  match c with
  | 'b' => '\x08'
  | 'f' => '\x0c'
  | 'n' => '\n'
  | 'r' => '\r'
  | 't' => '\t'
  | 'v' => '\x0b'
  | c => c

/-- The unit that two digits stand for. -/
def hexEscape : List Char → Option (List Nat × List Char)
  | a :: b :: rest => do return ([(← Json.hexDigit? a) * 16 + (← Json.hexDigit? b)], rest)
  | _ => none

/-- The code point that digits in braces stand for. -/
def codePoint (digits : List Char) : Option Nat := do
  let n ← digits.foldlM (fun n c => do return n * 16 + (← Json.hexDigit? c)) 0
  if digits.isEmpty || 0x10FFFF < n then none else some n

/-- The units that four digits, or digits in braces, stand for. -/
def unicodeEscape : List Char → Option (List Nat × List Char)
  | '\x7b' :: rest => do
    let n ← codePoint (rest.takeWhile (· ≠ '\x7d'))
    match rest.dropWhile (· ≠ '\x7d') with
    | [] => none
    | _ :: rest => return (unitsOf n, rest)
  | a :: b :: c :: d :: rest => do return ([← Json.hexUnit? a b c d], rest)
  | _ => none

/-- What the text behind a backslash begins with stands for, and the text behind that. The end of a line stands for
nothing, and digits other than a zero by itself for no character. -/
def escapeSequence : List Char → Option (List Nat × List Char)
  | [] => none
  | c :: rest =>
    if c = 'x' then hexEscape rest
    else if c = 'u' then unicodeEscape rest
    else if c.isDigit then if c = '0' ∧ rest.head?.any Char.isDigit = false then some ([0], rest) else none
    else if isLineEnd c then some ([], if c = '\r' ∧ rest.head? = some '\n' then rest.tail else rest)
    else some (unitsOf (escaped c).toNat, rest)

theorem length_hexEscape {cs rest : List Char} {us : List Nat} (h : hexEscape cs = some (us, rest)) : rest.length ≤ cs.length := by
  unfold hexEscape at h
  split at h
  · simp only [Option.pure_def, Option.bind_eq_bind, Option.bind_eq_some_iff, Option.some.injEq, Prod.mk.injEq] at h
    obtain ⟨-, -, -, -, -, rfl⟩ := h
    simp only [List.length_cons]
    omega
  · cases h

theorem length_unicodeEscape {cs rest : List Char} {us : List Nat} (h : unicodeEscape cs = some (us, rest)) :
    rest.length ≤ cs.length := by
  unfold unicodeEscape at h
  split at h
  · next digits =>
    obtain ⟨n, -, h⟩ := Option.bind_eq_some_iff.1 h
    split at h
    · cases h
    · next c tail htail =>
      cases h
      have hle := (List.dropWhile_suffix (· ≠ '\x7d') (l := digits)).length_le
      rw [htail] at hle
      simp only [List.length_cons] at hle ⊢
      omega
  · simp only [Option.pure_def, Option.bind_eq_bind, Option.bind_eq_some_iff, Option.some.injEq, Prod.mk.injEq] at h
    obtain ⟨-, -, -, rfl⟩ := h
    simp only [List.length_cons]
    omega
  · cases h

theorem length_escapeSequence {cs rest : List Char} {us : List Nat} (h : escapeSequence cs = some (us, rest)) :
    rest.length ≤ cs.length := by
  cases cs with
  | nil => cases h
  | cons c cs =>
    rw [List.length_cons]
    rw [escapeSequence] at h
    by_cases hx : c = 'x'
    · rw [if_pos hx] at h
      have hle := length_hexEscape h
      omega
    rw [if_neg hx] at h
    by_cases hu : c = 'u'
    · rw [if_pos hu] at h
      have hle := length_unicodeEscape h
      omega
    rw [if_neg hu] at h
    split at h
    · obtain ⟨-, h⟩ := Option.ite_none_right_eq_some.1 h
      cases h
      omega
    split at h
    · cases h
      split
      · rw [List.length_tail]
        omega
      · omega
    · cases h
      omega

/-- The value of the literal that goes on here, up to its closing quote, and the text behind it. -/
def stringValue : List Char → Option (List Nat × List Char)
  | [] => none
  | c :: cs =>
    if c = '"' then some ([], cs)
    else if c = '\\' then
      match _h : escapeSequence cs with
      | none => none
      | some (us, rest) => (stringValue rest).map fun run => (us ++ run.1, run.2)
    else if c = '\n' ∨ c = '\r' then none
    else (stringValue cs).map fun run => (unitsOf c.toNat ++ run.1, run.2)
termination_by cs => cs.length
decreasing_by
  · have hle := length_escapeSequence _h
    rw [List.length_cons]
    omega
  · rw [List.length_cons]
    omega

/-- The value of the literal between double quotes that a text begins with, and the text behind it. -/
def doubleQuoted : List Char → Option (List Nat × List Char)
  | '"' :: cs => stringValue cs
  | _ => none

/-! ## The characters of a literal -/

section Characters

variable {c : Char} {cs rest : List Char} {us : List Nat}

theorem stringValue_escape (h : escapeSequence cs = some (us, rest)) :
    stringValue ('\\' :: cs) = (stringValue rest).map fun run => (us ++ run.1, run.2) := by
  rw [stringValue, if_neg (by decide), if_pos rfl]
  split
  · next hnone =>
    rw [h] at hnone
    cases hnone
  · next us' rest' hsome =>
    rw [h] at hsome
    cases hsome
    rfl

theorem stringValue_plain (hquote : c ≠ '"') (hslash : c ≠ '\\') (hline : c ≠ '\n' ∧ c ≠ '\r') :
    stringValue (c :: cs) = (stringValue cs).map fun run => (unitsOf c.toNat ++ run.1, run.2) := by
  rw [stringValue, if_neg hquote, if_neg hslash, if_neg (not_or.2 hline)]

/-- The letters that escape a character stand for it. -/
theorem escapeSequence_letter {letter : Char} (h : escapeLetter? c = some letter) :
    escapeSequence (letter :: rest) = some (unitsOf c.toNat, rest) := by
  unfold escapeLetter? at h
  repeat' split at h
  all_goals first
    | (subst_vars; cases h; rfl)
    | cases h

/-- The four digits of a unit stand for it. -/
theorem escapeSequence_unit {n : Nat} (h : n < 0x10000) :
    escapeSequence ('u' :: (hexDigits 4 n ++ rest)) = some ([n], rest) := by
  have hbrace : (n / 4096).digitChar ≠ '\x7b' := by
    have hall : ∀ d : Fin 16, d.val.digitChar ≠ '\x7b' := by decide
    exact hall ⟨n / 4096, by omega⟩
  rw [hexDigits_four h, escapeSequence, if_neg (by decide), if_pos rfl]
  simp only [List.cons_append, List.nil_append]
  rw [unicodeEscape, Json.hexUnit?_digits h]
  · rfl
  · exact fun hhead => absurd hhead hbrace

/-- A character that is written with or without an escape stands for itself. -/
theorem stringValue_escapeChar :
    stringValue (escapeChar (fun c => 0x20 ≤ c.toNat) c ++ rest) =
      (stringValue rest).map fun run => (unitsOf c.toNat ++ run.1, run.2) := by
  unfold escapeChar
  cases hletter : escapeLetter? c with
  | some letter => exact stringValue_escape (escapeSequence_letter hletter)
  | none =>
    have hne (d : Char) (hd : (escapeLetter? d).isSome = true) : c ≠ d := by
      rintro rfl
      rw [hletter] at hd
      cases hd
    simp only [decide_eq_true_eq]
    split
    · exact stringValue_plain (hne _ rfl) (hne _ rfl) ⟨hne _ rfl, hne _ rfl⟩
    · have hsmall : c.toNat < 0x10000 := by omega
      rw [escapeCode, if_pos hsmall, escapeUnit, List.cons_append, List.cons_append, stringValue_escape (escapeSequence_unit hsmall),
        unitsOf, if_pos hsmall]

end Characters

theorem stringValue_content (cs rest : List Char) :
    stringValue (cs.flatMap (escapeChar fun c => 0x20 ≤ c.toNat) ++ '"' :: rest) =
      some (cs.flatMap fun c => unitsOf c.toNat, rest) := by
  induction cs with
  | nil =>
    rw [List.flatMap_nil, List.nil_append, stringValue, if_pos rfl]
    rfl
  | cons c cs ih =>
    rw [List.flatMap_cons, List.append_assoc, stringValue_escapeChar, ih, List.flatMap_cons]
    rfl

/-! ## Whole literals -/

/-- The text is a literal between double quotes that is closed by its last character only, stays on its line, and has
the string for its value, whatever stands behind it. -/
structure LiteralOf (s text : String) : Prop where
  token : ∀ A, Lexes A [.token (.string text)] fun _ => True
  closed : ∃ inner, text.toList = '"' :: (inner ++ ['"']) ∧ inner.foldlM (StringPart.step '"') .inside = some .inside
  line : '\n' ∉ text.toList ∧ '\r' ∉ text.toList
  value : ∀ rest, doubleQuoted (text.toList ++ rest) = some (utf16 s, rest)

/-- The text of a literal tells the string. -/
theorem LiteralOf.unique {s t text : String} (hs : LiteralOf s text) (ht : LiteralOf t text) : s = t := by
  have hvalue := (hs.value []).symm.trans (ht.value [])
  exact utf16_injective (Prod.mk.inj (Option.some.inj hvalue)).1

end Syntax

/-! ## The text of a string -/

/-- The digits of a unit are none of the signs that mean something between quotes. -/
theorem isAlphanum_hexDigits {n : Nat} (h : n < 0x10000) : ∀ d ∈ hexDigits 4 n, d.isAlphanum = true := by
  have hdigit (k : Nat) (hk : k < 16) : k.digitChar.isAlphanum = true := by
    have hall : ∀ k : Fin 16, k.val.digitChar.isAlphanum = true := by decide
    exact hall ⟨k, hk⟩
  rw [hexDigits_four h]
  intro d hd
  simp only [List.mem_cons, List.not_mem_nil, or_false] at hd
  rcases hd with rfl | rfl | rfl | rfl <;> exact hdigit _ (by omega)

/-- Text without quotes, backslashes and line ends stays inside the quotes. -/
theorem StringPart.foldlM_plain {cs : List Char} (h : ∀ c ∈ cs, c ≠ '"' ∧ c ≠ '\\' ∧ c ≠ '\n' ∧ c ≠ '\r') :
    cs.foldlM (StringPart.step '"') .inside = some .inside := by
  induction cs with
  | nil => rfl
  | cons c cs ih =>
    obtain ⟨⟨hquote, hslash, hline⟩, hcs⟩ := List.forall_mem_cons.1 h
    have hstep : StringPart.step '"' .inside c = some .inside := by
      rw [StringPart.step, StringPart.plain, if_neg hquote, if_neg hslash, if_neg (not_or.2 hline)]
    rw [List.foldlM_cons, hstep]
    exact ih hcs

theorem StringPart.foldlM_escape {c : Char} (h : c ≠ '\r') (cs : List Char) :
    ('\\' :: c :: cs).foldlM (StringPart.step '"') .inside = cs.foldlM (StringPart.step '"') .inside := by
  have hslash : StringPart.step '"' .inside '\\' = some .escaped := rfl
  have hescaped : StringPart.step '"' .escaped c = some .inside := by rw [StringPart.step, if_neg h]
  rw [List.foldlM_cons, hslash]
  change List.foldlM (StringPart.step '"') StringPart.escaped (c :: cs) = _
  rw [List.foldlM_cons, hescaped]
  rfl

/-- A character that is written between quotes leaves the literal open, and ends no line. -/
theorem inside_escapeChar (c : Char) :
    (escapeChar (fun c => 0x20 ≤ c.toNat) c).foldlM (StringPart.step '"') .inside = some .inside ∧
      ∀ d ∈ escapeChar (fun c => 0x20 ≤ c.toNat) c, d ≠ '\n' ∧ d ≠ '\r' := by
  unfold escapeChar
  cases hletter : escapeLetter? c with
  | some letter =>
    have hne : letter ≠ '\n' ∧ letter ≠ '\r' := by
      unfold escapeLetter? at hletter
      repeat' split at hletter
      all_goals first
        | (cases hletter; decide)
        | cases hletter
    exact ⟨StringPart.foldlM_escape hne.2 [], by simp [hne]⟩
  | none =>
    have hne (d : Char) (hd : (escapeLetter? d).isSome = true) : c ≠ d := by
      rintro rfl
      rw [hletter] at hd
      cases hd
    simp only [decide_eq_true_eq]
    split
    · have hplain : ∀ d ∈ [c], d ≠ '"' ∧ d ≠ '\\' ∧ d ≠ '\n' ∧ d ≠ '\r' := by
        rw [List.forall_mem_singleton]
        exact ⟨hne _ rfl, hne _ rfl, hne _ rfl, hne _ rfl⟩
      exact ⟨StringPart.foldlM_plain hplain, fun d hd => (hplain d hd).2.2⟩
    · have hsmall : c.toNat < 0x10000 := by omega
      have hdigits : ∀ d ∈ hexDigits 4 c.toNat, d ≠ '"' ∧ d ≠ '\\' ∧ d ≠ '\n' ∧ d ≠ '\r' := by
        intro d hd
        have halnum := isAlphanum_hexDigits hsmall d hd
        refine ⟨?_, ?_, ?_, ?_⟩ <;> rintro rfl <;> cases halnum
      rw [escapeCode, if_pos hsmall, escapeUnit]
      refine ⟨(StringPart.foldlM_escape (by decide) _).trans (StringPart.foldlM_plain hdigits), ?_⟩
      rw [List.forall_mem_cons, List.forall_mem_cons]
      exact ⟨by decide, by decide, fun d hd => (hdigits d hd).2.2⟩

/-- All that is written between the quotes leaves the literal open. -/
theorem inside_flatMap (cs : List Char) :
    (cs.flatMap (escapeChar fun c => 0x20 ≤ c.toNat)).foldlM (StringPart.step '"') .inside = some .inside := by
  induction cs with
  | nil => rfl
  | cons c cs ih =>
    rw [List.flatMap_cons, List.foldlM_append, (inside_escapeChar c).1]
    exact ih

/-- Characters that lead from one part of a string to another are read as characters of a token. -/
theorem Lexing.run_string {A : Alphabet} {quote : Char} {part last : StringPart} {cs : List Char}
    (h : cs.foldlM (StringPart.step quote) part = some last) : (string quote part).run A cs = some (string quote last) := by
  induction cs generalizing part with
  | nil =>
    cases h
    rfl
  | cons c cs ih =>
    rw [List.foldlM_cons] at h
    obtain ⟨next, hnext, hrest⟩ := Option.bind_eq_some_iff.1 h
    rw [run, step, hnext]
    exact ih hrest

/-- What stands between double quotes and stays inside them is one token with the quotes, whatever follows. -/
theorem lexes_string {text : String} {inner : List Char} (A : Alphabet) (htext : text.toList = '"' :: (inner ++ ['"']))
    (hinner : inner.foldlM (StringPart.step '"') .inside = some .inside) : Lexes A [.token (.string text)] fun _ => True := by
  have hrun : (Lexing.string '"' .inside).run A (inner ++ ['"']) = some (.string '"' .closed) :=
    Lexing.run_string (by rw [List.foldlM_append, hinner]; rfl)
  have hread : (Token.string text).ReadTo A (.string '"' .closed) := ⟨rfl, '"', _, .string '"' .inside, htext, rfl, hrun⟩
  exact (Lexes.token hread).mono fun _ _ => hread.string

/-- The text of a string is a literal, and its value is the string. -/
theorem literalOf_quote (s : String) : Syntax.LiteralOf s (quote s) := by
  have htext : (quote s).toList = '"' :: (s.toList.flatMap (escapeChar fun c => 0x20 ≤ c.toNat) ++ ['"']) := by
    rw [quote, quoteWith, String.toList_ofList]
  refine ⟨fun A => lexes_string A htext (inside_flatMap _), ⟨_, htext, inside_flatMap _⟩, ?_, fun rest => ?_⟩
  · have hline (d : Char) (hd : d ∈ (quote s).toList) : d ≠ '\n' ∧ d ≠ '\r' := by
      rw [htext] at hd
      simp only [List.mem_cons, List.mem_append, List.mem_flatMap, List.not_mem_nil, or_false] at hd
      rcases hd with rfl | ⟨c, -, hd⟩ | rfl
      · decide
      · exact (inside_escapeChar c).2 d hd
      · decide
    exact ⟨fun h => (hline _ h).1 rfl, fun h => (hline _ h).2 rfl⟩
  · rw [htext, List.cons_append, List.append_assoc, Syntax.doubleQuoted]
    exact Syntax.stringValue_content _ _

/-! ## Literals in probes -/

/-- A literal node is printed as the text of its value. -/
theorem fragment_literal (value : Json) (place : Place) :
    Printable.fragment place (printable (.literal value)) = .ok ⟨.str (literalText value), .primary⟩ :=
  Prints.literal_fragment rfl rfl place

/-- A property of a probe is printed with the text of its key, and its value behind it. -/
theorem objectMember_property (key value : Json) (place : Place) :
    Printable.objectMember place (printable (.property key value)) = (do
      return .str (literalText key ++ ": " ++ (← Printable.expressionText place .assign (printable value)))) := by
  have hkey : Printable.propertyKey place (layer (printable (.property key value))) = .ok (.str (literalText key)) := by
    rw [Json.property, layer_printable, Printable.propertyKey, flag_printed rfl, ok_bind, require_printed rfl]
    rw [if_neg Bool.false_ne_true]
    change Printable.expression place .primary (printable (.literal key)) = _
    rw [Printable.expression, fragment_literal]
    rfl
  rw [Printable.objectMember, hkey]
  rfl

/-- The literal that is made for a string is exact: it is one token between double quotes that is closed by its last
character only and stands on one line, it has the string for its value whatever stands behind it, and no other string
has this literal. It is what is printed for the string, and in front of the value for the string as a key. -/
theorem literalText_exact (s : String) :
    Syntax.LiteralOf s (literalText (.str s)) ∧
    (∀ t, literalText (.str t) = literalText (.str s) ↔ t = s) ∧
    ∀ place, Printable.fragment place (printable (.literal (.str s))) = .ok ⟨.str (literalText (.str s)), .primary⟩ ∧
      ∀ value, Printable.objectMember place (printable (.property (.str s) value)) = (do
        return .str (literalText (.str s) ++ ": " ++ (← Printable.expressionText place .assign (printable value)))) := by
  refine ⟨literalOf_quote s, fun t => ⟨fun h => ?_, fun h => by rw [h]⟩, fun place => ⟨fragment_literal _ place, fun value => ?_⟩⟩
  · have ht : Syntax.LiteralOf t (literalText (.str s)) := h ▸ literalOf_quote t
    exact ht.unique (literalOf_quote s)
  · exact objectMember_property _ _ place


end ScriptTrace
