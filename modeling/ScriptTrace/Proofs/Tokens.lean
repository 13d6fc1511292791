import ScriptTrace.Json.Parser

/-!
# The tokens of expressions

Program text is read one character after the other. A token goes on as long as the next character can belong
to it, so it is always the longest there is; space ends a token and is skipped.

* `Token` : words, numbers, strings and signs; `Alphabet` : which characters beyond ASCII make words;
* `Lexing` : what is known of a token after some of its characters;
* `Alphabet.tokens` : the tokens of a text, none where some part of it is no token;
* `Lexes` : a part of a text that is read as certain tokens, whatever acceptable text stands behind it.

Comments and regular expressions do not belong to the texts that are read here: a text with a comment has no
tokens.
-/

namespace ScriptTrace

/-- A token with its text. -/
inductive Token where
  | word (text : String)
  | number (text : String)
  | string (text : String)
  | sign (text : String)
  deriving DecidableEq, Repr

def Token.text : Token → String
  | word text => text
  | number text => text
  | string text => text
  | sign text => text

/-! ## Words -/

/-- Which characters beyond ASCII begin a word, and which more may stand in one. The tables differ between
versions of Unicode; nothing here depends on them. -/
structure Alphabet where
  starts : Char → Bool
  parts : Char → Bool

namespace Alphabet

/-- The characters that begin a word. -/
def isStart (A : Alphabet) (c : Char) : Bool :=
  if c.toNat < 128 then c.isAlpha || c == '$' || c == '_' else A.starts c

/-- The characters in a word. -/
def isPart (A : Alphabet) (c : Char) : Bool :=
  if c.toNat < 128 then c.isAlphanum || c == '$' || c == '_' else A.starts c || A.parts c

/-- ASCII alone. -/
def ascii : Alphabet := ⟨fun _ => false, fun _ => false⟩

instance : Inhabited Alphabet := ⟨ascii⟩

end Alphabet

/-! ## Numbers -/

/-- What is known of a number after some of its characters. -/
inductive NumberPart where
  | zero
  | integer
  /-- Behind the point. -/
  | fraction
  /-- Behind the letter of the exponent, with or without a sign. -/
  | exponent (signed : Bool)
  | power
  /-- Behind the letter that names a base. -/
  | base (radix : Nat)
  | digits (radix : Nat)
  /-- Behind the letter that ends a big integer. -/
  | big
  deriving DecidableEq, Repr

namespace NumberPart

/-- The base that a letter behind a zero names. -/
def radix? (c : Char) : Option Nat :=
  if c = 'x' ∨ c = 'X' then some 16
  else if c = 'o' ∨ c = 'O' then some 8
  else if c = 'b' ∨ c = 'B' then some 2
  else none

/-- What may stand behind the digits of a decimal number, `next` behind one more digit or separator. -/
def decimal (next : NumberPart) (c : Char) : Option NumberPart :=
  if c.isDigit ∨ c = '_' then some next
  else if c = 'e' ∨ c = 'E' then some (.exponent false)
  else none

/-- The same behind the digits before the point. -/
def whole (c : Char) : Option NumberPart :=
  if c = '.' then some .fraction
  else if c = 'n' then some .big
  else decimal .integer c

def inBase (radix : Nat) (c : Char) : Bool := (Json.hexDigit? c).any (· < radix)

/-- One more character of a number. -/
def step : NumberPart → Char → Option NumberPart
  | zero, c => ((radix? c).map .base).or (whole c)
  | integer, c => whole c
  | fraction, c => decimal .fraction c
  | exponent signed, c =>
    if c.isDigit then some .power
    else if (c = '+' ∨ c = '-') ∧ signed = false then some (.exponent true)
    else none
  | power, c => if c.isDigit ∨ c = '_' then some .power else none
  | base radix, c => if inBase radix c then some (.digits radix) else none
  | digits radix, c =>
    if inBase radix c ∨ c = '_' then some (.digits radix)
    else if c = 'n' then some .big
    else none
  | big, _ => none

/-- Whether a number may end here. -/
def final : NumberPart → Bool
  | exponent _ | base _ => false
  | _ => true

end NumberPart

/-! ## Strings -/

/-- What is known of a string after some of its characters. -/
inductive StringPart where
  | inside
  | escaped
  /-- Behind an escaped carriage return, which a line feed may belong to. -/
  | escapedReturn
  | closed
  deriving DecidableEq, Repr

namespace StringPart

/-- One more character of a string with this quote that is not escaped. -/
def plain (quote : Char) (c : Char) : Option StringPart :=
  if c = quote then some .closed
  else if c = '\\' then some .escaped
  else if c = '\n' ∨ c = '\r' then none
  else some .inside

/-- One more character of a string. -/
def step (quote : Char) : StringPart → Char → Option StringPart
  | inside, c => plain quote c
  | escaped, c => some (if c = '\r' then .escapedReturn else .inside)
  | escapedReturn, c => if c = '\n' then some .inside else plain quote c
  | closed, _ => none

end StringPart

/-! ## Signs -/

/-- The signs of the language that can stand in expressions, save those of templates and optional chains. -/
def signs : List String := [
  "(", ")", "[", "]", ";", ",", ":", "~", "...", ".", "?", "??", "??=", "=>",
  "<", ">", "<=", ">=", "==", "!=", "===", "!==", "+", "-", "*", "/", "%", "**", "++", "--",
  "<<", ">>", ">>>", "&", "|", "^", "!", "&&", "||",
  "=", "+=", "-=", "*=", "/=", "%=", "**=", "<<=", ">>=", ">>>=", "&=", "|=", "^=", "&&=", "||="]

/-- Whether some sign begins with these characters. -/
def beginsSign (cs : List Char) : Bool := signs.any fun s => cs.isPrefixOf s.toList

/-! ## One character after the other -/

/-- What is known of a token after some of its characters. -/
inductive Lexing where
  | word
  | number (part : NumberPart)
  | string (quote : Char) (part : StringPart)
  | sign (read : List Char)
  /-- A comment, or a number that runs into a word: no token. -/
  | broken
  deriving DecidableEq, Repr

namespace Lexing

variable (A : Alphabet)

/-- A token from its first character. -/
def start (c : Char) : Option Lexing :=
  if A.isStart c then some .word
  else if c.isDigit then some (.number (if c = '0' then .zero else .integer))
  else if c = '"' ∨ c = '\'' then some (.string c .inside)
  else if beginsSign [c] then some (.sign [c])
  else none

/-- One more character of a token; none where the token ends before it. -/
def step : Lexing → Char → Option Lexing
  | word, c => if A.isPart c then some .word else none
  | number part, c =>
    match part.step c with
    | some next => some (.number next)
    | none => if A.isStart c ∨ c.isDigit then some .broken else none
  | string quote part, c => (part.step quote c).map (.string quote)
  | sign read, c =>
    if read = ['.'] ∧ c.isDigit then some (.number .fraction)
    else if read = ['/'] ∧ (c = '/' ∨ c = '*') then some .broken
    else if beginsSign (read ++ [c]) then some (.sign (read ++ [c]))
    else none
  | broken, _ => some .broken

/-- Many more characters. -/
def run : Lexing → List Char → Option Lexing
  | s, [] => some s
  | s, c :: cs => (s.step A c).bind fun next => run next cs

/-- The token that ends here. -/
def token? (text : String) : Lexing → Option Token
  | word => some (.word text)
  | number part => if part.final then some (.number text) else none
  | string _ part => if part = .closed then some (.string text) else none
  | sign _ => if text ∈ signs then some (.sign text) else none
  | broken => none

end Lexing

/-- The characters between tokens: white space and line ends. -/
def isGap (c : Char) : Bool :=
  CharTable.contains [(0x9, 0xD), (0x20, 0x20), (0xA0, 0xA0), (0x1680, 0x1680), (0x2000, 0x200A), (0x2028, 0x2029),
    (0x202F, 0x202F), (0x205F, 0x205F), (0x3000, 0x3000), (0xFEFF, 0xFEFF)] c

namespace Alphabet

variable (A : Alphabet)

/-- What is begun by a character outside of a token: a token, or nothing. -/
def begin? (c : Char) : Option (Option (Lexing × List Char)) :=
  match Lexing.start A c with
  | some s => some (some (s, [c]))
  | none => if isGap c then some none else none

/-- The tokens of a text, where a token may have been begun. -/
def scan : Option (Lexing × List Char) → List Char → Option (List Token)
  | none, [] => some []
  | some (s, read), [] => (s.token? (String.ofList read)).map ([·])
  | none, c :: cs => (A.begin? c).bind fun now => scan now cs
  | some (s, read), c :: cs =>
    match s.step A c with
    | some next => scan (some (next, read ++ [c])) cs
    | none => do
      let token ← s.token? (String.ofList read)
      let rest ← (A.begin? c).bind fun now => scan now cs
      return token :: rest

/-- The tokens of a text. -/
def tokens (text : String) : Option (List Token) := A.scan none text.toList

end Alphabet

/-- Whether the text of the token is read as this one token. -/
def Token.Proper (A : Alphabet) (t : Token) : Prop := A.tokens t.text = some [t]

instance (A : Alphabet) (t : Token) : Decidable (t.Proper A) := inferInstanceAs (Decidable (_ = _))

/-! ## Reading a token that other text follows -/

section Reading

variable {A : Alphabet}

namespace Alphabet

theorem scan_run {s t : Lexing} {read xs : List Char} (h : s.run A xs = some t) (rest : List Char) :
    A.scan (some (s, read)) (xs ++ rest) = A.scan (some (t, read ++ xs)) rest := by
  induction xs generalizing s read with
  | nil => cases h; rw [List.nil_append, List.append_nil]
  | cons c xs ih =>
    obtain ⟨next, hnext, hrun⟩ := Option.bind_eq_some_iff.1 h
    rw [List.cons_append, scan, hnext]
    have hscan := @ih next (read ++ [c]) hrun
    simpa using hscan

/-- A token that the next character does not belong to. -/
theorem scan_stop {s : Lexing} {read rest : List Char} {t : Token} (ht : s.token? (String.ofList read) = some t)
    (hstop : ∀ c ∈ rest.head?, s.step A c = none) :
    A.scan (some (s, read)) rest = (A.scan none rest).map (t :: ·) := by
  cases rest with
  | nil => simp [scan, ht]
  | cons c cs =>
    simp only [scan, hstop c rfl, ht]
    cases (A.begin? c).bind fun now => A.scan now cs <;> rfl

end Alphabet

theorem Lexing.text_of_token? {s : Lexing} {text : String} {t : Token} (h : s.token? text = some t) : t.text = text := by
  cases s with
  | word => cases h; rfl
  | number part =>
    obtain ⟨-, h⟩ := Option.ite_none_right_eq_some.1 h
    cases h; rfl
  | string quote part =>
    obtain ⟨-, h⟩ := Option.ite_none_right_eq_some.1 h
    cases h; rfl
  | sign read =>
    obtain ⟨-, h⟩ := Option.ite_none_right_eq_some.1 h
    cases h; rfl
  | broken => cases h

/-- A token that is all of what was read was read without a break. -/
theorem Alphabet.run_of_scan {s : Lexing} {read xs : List Char} {t : Token}
    (h : A.scan (some (s, read)) xs = some [t]) (ht : t.text.toList = read ++ xs) :
    ∃ last, s.run A xs = some last ∧ last.token? t.text = some t := by
  induction xs generalizing s read with
  | nil =>
    obtain ⟨u, hu, hone⟩ := Option.map_eq_some_iff.1 h
    cases hone
    exact ⟨s, rfl, by rw [List.append_nil] at ht; rwa [← ht, String.ofList_toList] at hu⟩
  | cons c xs ih =>
    rw [scan] at h
    cases hstep : s.step A c with
    | some next =>
      simp only [hstep] at h
      obtain ⟨last, hrun, hlast⟩ := ih h (by simpa using ht)
      exact ⟨last, by rw [Lexing.run, hstep]; exact hrun, hlast⟩
    | none =>
      -- the token would end before `c`, but its text goes on
      simp only [hstep] at h
      obtain ⟨u, hu, h⟩ := Option.bind_eq_some_iff.1 h
      obtain ⟨us, -, h⟩ := Option.bind_eq_some_iff.1 h
      cases h
      have hlength := congrArg List.length ht
      rw [Lexing.text_of_token? hu] at hlength
      simp at hlength

theorem Alphabet.length_le_of_scan {now : Option (Lexing × List Char)} {xs : List Char} {t : Token} {ts : List Token}
    (h : A.scan now xs = some (t :: ts)) : t.text.toList.length ≤ (now.elim 0 fun p => p.2.length) + xs.length := by
  induction xs generalizing now with
  | nil =>
    cases now with
    | none => cases h
    | some p =>
      obtain ⟨u, hu, hone⟩ := Option.map_eq_some_iff.1 h
      cases hone
      rw [Lexing.text_of_token? hu, String.toList_ofList]
      exact Nat.le_refl _
  | cons c xs ih =>
    cases now with
    | none =>
      obtain ⟨next, hnext, h⟩ := Option.bind_eq_some_iff.1 h
      have hle := ih h
      rw [begin?] at hnext
      split at hnext
      · cases hnext
        simp only [Option.elim, List.length_cons, List.length_nil] at hle ⊢
        omega
      · split at hnext
        · cases hnext
          simp only [Option.elim, List.length_cons] at hle ⊢
          omega
        · cases hnext
    | some p =>
      rw [scan] at h
      cases hstep : p.1.step A c with
      | some next =>
        simp only [hstep] at h
        have hle := ih h
        simp only [Option.elim, List.length_append, List.length_cons, List.length_nil] at hle ⊢
        omega
      | none =>
        simp only [hstep] at h
        obtain ⟨u, hu, h⟩ := Option.bind_eq_some_iff.1 h
        obtain ⟨us, -, h⟩ := Option.bind_eq_some_iff.1 h
        cases h
        rw [Lexing.text_of_token? hu, String.toList_ofList]
        simp only [Option.elim]
        omega

/-- The token is read from its first character to its last, and this state is reached. -/
structure Token.ReadTo (A : Alphabet) (t : Token) (last : Lexing) : Prop where
  token : last.token? t.text = some t
  run : ∃ c cs first, t.text.toList = c :: cs ∧ Lexing.start A c = some first ∧ first.run A cs = some last

theorem Token.Proper.readTo {t : Token} (h : t.Proper A) : ∃ last, t.ReadTo A last := by
  unfold Token.Proper Alphabet.tokens at h
  cases htext : t.text.toList with
  | nil => rw [htext] at h; cases h
  | cons c cs =>
    rw [htext] at h
    obtain ⟨next, hnext, h⟩ := Option.bind_eq_some_iff.1 h
    rw [Alphabet.begin?] at hnext
    split at hnext
    · next first hfirst =>
      cases hnext
      obtain ⟨last, hrun, hlast⟩ := Alphabet.run_of_scan h htext
      exact ⟨last, hlast, c, cs, first, htext, hfirst, hrun⟩
    · split at hnext
      · cases hnext
        have hlength := Alphabet.length_le_of_scan h
        rw [htext, List.length_cons] at hlength
        simp only [Option.elim] at hlength
        omega
      · cases hnext

end Reading

/-! ## Where tokens end -/

section Ends

variable {A : Alphabet} {c : Char} {last : Lexing}

/-- The letters of ASCII, by their codes. -/
theorem isAlpha_iff : c.isAlpha = true ↔ (65 ≤ c.val ∧ c.val ≤ 90) ∨ (97 ≤ c.val ∧ c.val ≤ 122) := by
  change (decide (65 ≤ c.val ∧ c.val ≤ 90) || (decide (97 ≤ c.val) && decide (c.val ≤ 122))) = true ↔ _
  rw [Bool.or_eq_true, Bool.and_eq_true, decide_eq_true_iff, decide_eq_true_iff, decide_eq_true_iff]

namespace Alphabet

theorem isPart_of_isAlphanum (h : c.isAlphanum = true) : A.isPart c = true := by
  have hascii : c.toNat < 128 := by
    simp only [Char.isAlphanum, isAlpha_iff, Char.isDigit, Bool.or_eq_true, Bool.and_eq_true, decide_eq_true_eq,
      ge_iff_le, UInt32.le_iff_toNat_le] at h
    have hnat : c.toNat = c.val.toNat := rfl
    rcases h with (⟨-, h⟩ | ⟨-, h⟩) | ⟨-, h⟩ <;> exact Nat.lt_of_le_of_lt (hnat ▸ h) (by decide)
  rw [isPart, if_pos hascii, h]
  rfl

theorem isPart_of_isDigit (h : c.isDigit = true) : A.isPart c = true :=
  isPart_of_isAlphanum (by simp [Char.isAlphanum, h])

theorem isPart_of_isStart (h : A.isStart c = true) : A.isPart c = true := by
  rw [isStart] at h
  rw [isPart]
  split at h
  · next hascii =>
    rw [if_pos hascii]
    simp only [Char.isAlphanum, Bool.or_eq_true] at h ⊢
    rcases h with (h | h) | h
    · exact .inl (.inl (.inl h))
    · exact .inl (.inr h)
    · exact .inr h
  · next hascii => simp [hascii, h]

/-- The digits of a base are letters and digits of ASCII. -/
theorem isPart_of_inBase {radix : Nat} (h : NumberPart.inBase radix c = true) : A.isPart c = true := by
  have halnum : c.isAlphanum = true := by
    unfold NumberPart.inBase Json.hexDigit? at h
    simp only [Char.isAlphanum, isAlpha_iff, Char.isDigit, Bool.or_eq_true, Bool.and_eq_true, decide_eq_true_eq,
      ge_iff_le]
    split at h
    · next hc => exact .inr hc
    · split at h
      · next hc => exact .inl (.inr ⟨hc.1, UInt32.le_trans hc.2 (by decide)⟩)
      · split at h
        · next hc => exact .inl (.inl ⟨hc.1, UInt32.le_trans hc.2 (by decide)⟩)
        · cases h
  exact isPart_of_isAlphanum halnum

end Alphabet

namespace NumberPart

theorem isPart_of_decimal {after next : NumberPart} (h : decimal after c = some next) : A.isPart c = true := by
  unfold decimal at h
  split at h
  · next hc =>
    rcases hc with hc | rfl
    · exact Alphabet.isPart_of_isDigit hc
    · rfl
  · split at h
    · next hc => rcases hc with rfl | rfl <;> rfl
    · cases h

theorem isPart_of_whole {next : NumberPart} (h : whole c = some next) (hpoint : c ≠ '.') : A.isPart c = true := by
  unfold whole at h
  rw [if_neg hpoint] at h
  split at h
  · next hc => subst hc; rfl
  · exact isPart_of_decimal h

theorem isPart_of_radix? {radix : Nat} (h : radix? c = some radix) : A.isPart c = true := by
  unfold radix? at h
  split at h
  · next hc => rcases hc with rfl | rfl <;> rfl
  · split at h
    · next hc => rcases hc with rfl | rfl <;> rfl
    · split at h
      · next hc => rcases hc with rfl | rfl <;> rfl
      · cases h

/-- What goes on a number that may end belongs to words, unless it is a point. -/
theorem isPart_of_step {part next : NumberPart} (hfinal : part.final = true) (h : part.step c = some next)
    (hpoint : c ≠ '.') : A.isPart c = true := by
  cases part with
  | zero =>
    rcases Option.or_eq_some_iff.1 h with h | ⟨-, h⟩
    · obtain ⟨radix, hradix, -⟩ := Option.map_eq_some_iff.1 h
      exact isPart_of_radix? hradix
    · exact isPart_of_whole h hpoint
  | integer => exact isPart_of_whole h hpoint
  | fraction => exact isPart_of_decimal h
  | exponent signed => cases hfinal
  | power =>
    obtain ⟨hc, -⟩ := Option.ite_none_right_eq_some.1 h
    rcases hc with hc | rfl
    · exact Alphabet.isPart_of_isDigit hc
    · rfl
  | base radix => cases hfinal
  | digits radix =>
    simp only [step] at h
    split at h
    · next hc =>
      rcases hc with hc | rfl
      · exact Alphabet.isPart_of_inBase hc
      · rfl
    · obtain ⟨rfl, -⟩ := Option.ite_none_right_eq_some.1 h
      rfl
  | big => cases h

/-- A number that began with a point has no second one. -/
def afterPoint : NumberPart → Bool
  | fraction | exponent _ | power => true
  | _ => false

theorem afterPoint_of_step {part next : NumberPart} (hpart : part.afterPoint = true) (h : part.step c = some next) :
    next.afterPoint = true ∧ c ≠ '.' := by
  cases part with
  | fraction =>
    simp only [step, decimal] at h
    split at h
    · next hc =>
      cases h
      exact ⟨rfl, by rintro rfl; simp at hc⟩
    · obtain ⟨hc, h⟩ := Option.ite_none_right_eq_some.1 h
      cases h
      exact ⟨rfl, by rintro rfl; simp at hc⟩
  | exponent signed =>
    simp only [step] at h
    split at h
    · next hc =>
      cases h
      exact ⟨rfl, by rintro rfl; simp at hc⟩
    · obtain ⟨hc, h⟩ := Option.ite_none_right_eq_some.1 h
      cases h
      exact ⟨rfl, by rintro rfl; simp at hc⟩
  | power =>
    obtain ⟨hc, h⟩ := Option.ite_none_right_eq_some.1 h
    cases h
    exact ⟨rfl, by rintro rfl; simp at hc⟩
  | _ => cases hpart

end NumberPart

theorem Lexing.step_number {part : NumberPart} (hpart : part.step c = none) (hc : A.isPart c = false) :
    (Lexing.number part).step A c = none := by
  have hstart : ¬ (A.isStart c = true ∨ c.isDigit = true) := by
    rintro (h | h)
    · rw [Alphabet.isPart_of_isStart h] at hc; cases hc
    · rw [Alphabet.isPart_of_isDigit h] at hc; cases hc
  simp [step, hpart, hstart]

/-- No number whose whole part is still being read. -/
def Lexing.afterPoint : Lexing → Bool
  | number part => part.afterPoint
  | _ => true

theorem Lexing.afterPoint_step {s next : Lexing} (hs : s.afterPoint = true) (h : s.step A c = some next) :
    next.afterPoint = true := by
  cases s with
  | word =>
    obtain ⟨-, h⟩ := Option.ite_none_right_eq_some.1 h
    cases h; rfl
  | number part =>
    simp only [step] at h
    split at h
    · next hstep =>
      cases h
      exact (NumberPart.afterPoint_of_step hs hstep).1
    · obtain ⟨-, h⟩ := Option.ite_none_right_eq_some.1 h
      cases h; rfl
  | string quote part =>
    obtain ⟨_, -, rfl⟩ := Option.map_eq_some_iff.1 h
    rfl
  | sign read =>
    simp only [step] at h
    split at h
    · cases h; rfl
    · split at h
      · cases h; rfl
      · obtain ⟨-, h⟩ := Option.ite_none_right_eq_some.1 h
        cases h; rfl
  | broken => cases h; rfl

theorem Lexing.afterPoint_run {s last : Lexing} {cs : List Char} (hs : s.afterPoint = true) (h : s.run A cs = some last) :
    last.afterPoint = true := by
  induction cs generalizing s with
  | nil => cases h; exact hs
  | cons c cs ih =>
    obtain ⟨next, hnext, hrun⟩ := Option.bind_eq_some_iff.1 h
    exact ih (afterPoint_step hs hnext) hrun

theorem Lexing.afterPoint_start {s : Lexing} (hc : c.isDigit = false) (h : start A c = some s) : s.afterPoint = true := by
  unfold start at h
  rw [hc] at h
  split at h
  · cases h; rfl
  · split at h
    · next hdigit => cases hdigit
    · split at h
      · cases h; rfl
      · obtain ⟨-, h⟩ := Option.ite_none_right_eq_some.1 h
        cases h; rfl

/-- A word is one from its first character. -/
theorem Lexing.run_word {s : Lexing} {cs : List Char} (h : s.run A cs = some .word) : s = .word := by
  induction cs generalizing s with
  | nil => cases h; rfl
  | cons c cs ih =>
    obtain ⟨next, hnext, hrun⟩ := Option.bind_eq_some_iff.1 h
    rw [ih hrun] at hnext
    cases s with
    | word => rfl
    | number part =>
      simp only [step] at hnext
      split at hnext
      · cases hnext
      · obtain ⟨-, hnext⟩ := Option.ite_none_right_eq_some.1 hnext
        cases hnext
    | string quote part =>
      obtain ⟨_, -, hnext⟩ := Option.map_eq_some_iff.1 hnext
      cases hnext
    | sign read =>
      simp only [step] at hnext
      split at hnext
      · cases hnext
      · split at hnext
        · cases hnext
        · obtain ⟨-, hnext⟩ := Option.ite_none_right_eq_some.1 hnext
          cases hnext
    | broken => cases hnext

theorem Lexing.start_word (h : start A c = some .word) : A.isStart c = true := by
  unfold start at h
  split at h
  · next hc => exact hc
  · split at h
    · cases h
    · split at h
      · cases h
      · obtain ⟨-, h⟩ := Option.ite_none_right_eq_some.1 h
        cases h

/-- What begins with an equality sign is a sign. -/
theorem Lexing.run_equality {read cs : List Char} {last : Lexing} (hread : read.head? = some '=')
    (h : (Lexing.sign read).run A cs = some last) : ∃ all, last = .sign all := by
  induction cs generalizing read with
  | nil => cases h; exact ⟨read, rfl⟩
  | cons c cs ih =>
    obtain ⟨next, hnext, hrun⟩ := Option.bind_eq_some_iff.1 h
    have hpoint : read ≠ ['.'] := by rintro rfl; cases hread
    have hslash : read ≠ ['/'] := by rintro rfl; cases hread
    simp only [step, hpoint, hslash, false_and, if_false, Option.ite_none_right_eq_some, Option.some.injEq] at hnext
    obtain ⟨-, rfl⟩ := hnext
    exact ih (by rw [List.head?_append, hread]; rfl) hrun

namespace Token

theorem ReadTo.word {text : String} (h : (word text).ReadTo A last) (hc : A.isPart c = false) : last.step A c = none := by
  have htoken := h.token
  cases last with
  | word => simp [Lexing.step, hc]
  | _ => simp [Lexing.token?] at htoken

theorem ReadTo.string {text : String} (h : (string text).ReadTo A last) : last.step A c = none := by
  have htoken := h.token
  cases last with
  | string quote part =>
    obtain ⟨rfl, -⟩ := Option.ite_none_right_eq_some.1 htoken
    rfl
  | _ => simp [Lexing.token?] at htoken

theorem ReadTo.number {text : String} (h : (number text).ReadTo A last) (hc : A.isPart c = false) (hpoint : c ≠ '.') :
    last.step A c = none := by
  have htoken := h.token
  cases last with
  | number part =>
    obtain ⟨hfinal, -⟩ := Option.ite_none_right_eq_some.1 htoken
    cases hstep : part.step c with
    | none => exact Lexing.step_number hstep hc
    | some next => rw [NumberPart.isPart_of_step hfinal hstep hpoint] at hc; cases hc
  | _ => simp [Lexing.token?] at htoken

/-- A number that begins with its point takes no second one. -/
theorem ReadTo.fraction {text : String} (h : (Token.number text).ReadTo A last)
    (hdigit : ∀ d ∈ text.toList.head?, d.isDigit = false) (hc : A.isPart c = false) : last.step A c = none := by
  by_cases hpoint : c = '.'
  · subst hpoint
    obtain ⟨d, ds, first, htext, hfirst, hrun⟩ := h.run
    have hafter := Lexing.afterPoint_run (Lexing.afterPoint_start (hdigit d (by simp only [Token.text] at htext; rw [htext]; rfl)) hfirst) hrun
    have htoken := h.token
    cases last with
    | number part =>
      cases hstep : part.step '.' with
      | none => exact Lexing.step_number hstep rfl
      | some next => exact absurd rfl (NumberPart.afterPoint_of_step hafter hstep).2
    | _ => simp [Lexing.token?] at htoken
  · exact h.number hc hpoint

/-- A word or literal begins with something else than an equality sign. -/
theorem Proper.begins {t : Token} (h : t.Proper A) (hsign : ∀ text, t ≠ .sign text) :
    ∃ c cs, t.text.toList = c :: cs ∧ c ≠ '=' := by
  obtain ⟨last, hlast⟩ := h.readTo
  obtain ⟨c, cs, first, htext, hfirst, hrun⟩ := hlast.run
  refine ⟨c, cs, htext, ?_⟩
  rintro rfl
  have hstart : Lexing.start A '=' = some (.sign ['=']) := rfl
  cases hstart.symm.trans hfirst
  obtain ⟨all, rfl⟩ := Lexing.run_equality rfl hrun
  obtain ⟨-, ht⟩ := Option.ite_none_right_eq_some.1 hlast.token
  exact hsign _ (Option.some.inj ht).symm

theorem ReadTo.begins_word {text : String} (h : (Token.word text).ReadTo A last) :
    ∃ c cs, text.toList = c :: cs ∧ A.isStart c = true := by
  obtain ⟨c, cs, first, htext, hfirst, hrun⟩ := h.run
  have htoken := h.token
  cases last with
  | word => exact ⟨c, cs, htext, Lexing.start_word (Lexing.run_word hrun ▸ hfirst)⟩
  | _ => simp [Lexing.token?] at htoken

/-- A sign is read to the state that holds it. -/
theorem readTo_sign {text : String} (h : text ∈ signs) : (sign text).ReadTo A (.sign text.toList) := by
  refine ⟨by simp [Lexing.token?, Token.text, h], ?_⟩
  simp only [signs, List.mem_cons, List.not_mem_nil, or_false] at h
  repeat' (first | subst h | rcases h with h | h)
  all_goals exact ⟨_, _, _, rfl, rfl, rfl⟩

end Token

end Ends

/-! ## Texts of tokens and spaces -/

/-- A part of a text. -/
inductive Piece where
  | space
  | token (t : Token)

namespace Piece

def text : Piece → String
  | space => " "
  | token t => t.text

/-- The text of pieces in a row. -/
def textOf (ps : List Piece) : String := String.join (ps.map text)

/-- The tokens among pieces. -/
def tokensOf (ps : List Piece) : List Token :=
  ps.filterMap fun p => match p with
    | space => none
    | token t => some t

@[simp] theorem textOf_nil : textOf [] = "" := rfl

@[simp] theorem textOf_cons (p : Piece) (ps : List Piece) : textOf (p :: ps) = p.text ++ textOf ps := by
  simp [textOf]

@[simp] theorem textOf_append (ps qs : List Piece) : textOf (ps ++ qs) = textOf ps ++ textOf qs := by
  simp [textOf]

@[simp] theorem tokensOf_nil : tokensOf [] = [] := rfl

@[simp] theorem tokensOf_space (ps : List Piece) : tokensOf (space :: ps) = tokensOf ps := rfl

@[simp] theorem tokensOf_token (t : Token) (ps : List Piece) : tokensOf (token t :: ps) = t :: tokensOf ps := rfl

@[simp] theorem tokensOf_append (ps qs : List Piece) : tokensOf (ps ++ qs) = tokensOf ps ++ tokensOf qs := by
  simp [tokensOf]

end Piece

/-- The pieces are read as their tokens, whatever text stands behind them, if its first character is one of `ok`. -/
def Lexes (A : Alphabet) (ps : List Piece) (ok : Char → Prop) : Prop :=
  ∀ rest : List Char, (∀ c ∈ rest.head?, ok c) →
    A.scan none ((Piece.textOf ps).toList ++ rest) = (A.scan none rest).map (Piece.tokensOf ps ++ ·)

namespace Lexes

variable {A : Alphabet} {ps qs : List Piece} {ok ok' : Char → Prop}

theorem tokens (h : Lexes A ps ok) : A.tokens (Piece.textOf ps) = some (Piece.tokensOf ps) := by
  have hread := h [] (by simp)
  rw [List.append_nil] at hread
  rw [Alphabet.tokens, hread]
  simp [Alphabet.scan]

theorem mono (h : Lexes A ps ok) (hok : ∀ c, ok' c → ok c) : Lexes A ps ok' :=
  fun rest hrest => h rest fun c hc => hok c (hrest c hc)

theorem nil : Lexes A [] ok := fun rest _ => by simp

theorem space : Lexes A [.space] ok := fun rest _ => by
  have hspace : A.begin? ' ' = some none := rfl
  simp [Piece.text, Alphabet.scan, hspace]

/-- Pieces behind pieces, where the first character of the later ones is acceptable. -/
theorem append (hps : Lexes A ps ok) (hqs : Lexes A qs ok')
    (hok : ∀ rest, (∀ c ∈ rest.head?, ok' c) → ∀ c ∈ ((Piece.textOf qs).toList ++ rest).head?, ok c) :
    Lexes A (ps ++ qs) ok' := by
  intro rest hrest
  rw [Piece.textOf_append, String.toList_append, List.append_assoc, hps _ (hok rest hrest), hqs rest hrest,
    Option.map_map, Piece.tokensOf_append]
  congr 1
  funext ts
  exact (List.append_assoc _ _ ts).symm

theorem token {t : Token} {last : Lexing} (h : t.ReadTo A last) : Lexes A [.token t] fun c => last.step A c = none := by
  obtain ⟨c, cs, first, htext, hfirst, hrun⟩ := h.run
  intro rest hrest
  have hbegin : A.begin? c = some (some (first, [c])) := by rw [Alphabet.begin?, hfirst]
  have htoken : last.token? (String.ofList ([c] ++ cs)) = some t := by
    rw [List.singleton_append, ← htext, String.ofList_toList]
    exact h.token
  simp only [Piece.textOf_cons, Piece.text, Piece.textOf_nil, String.append_empty, htext, List.cons_append, Alphabet.scan,
    hbegin, Option.bind_some, Piece.tokensOf_token, Piece.tokensOf_nil]
  rw [Alphabet.scan_run hrun, Alphabet.scan_stop htoken hrest]
  rfl

end Lexes

end ScriptTrace
