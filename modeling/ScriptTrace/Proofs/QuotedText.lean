import ScriptTrace.Json.Parser
import ScriptTrace.Text.Quoted

/-!
# Quoted strings are read back

A string is written with escapes for some characters, and the reader of JSON text takes the escapes back,
whatever follows the closing quote. So the text of a string tells the string, and where it ends.

* `hexDigits_four` : the digits of one unit;
* `Json.readChars_escapeChar` : one character, by its letter, as itself, as a unit, or as a surrogate pair;
* `Json.readString_quoteWith` : a whole string;
* `quoteWith_cut` : two quoted strings with something behind them.
-/

namespace ScriptTrace

/-! ## Units -/

theorem hexDigits_four {n : Nat} (h : n < 0x10000) : hexDigits 4 n =
    [(n / 4096).digitChar, (n / 256 % 16).digitChar, (n / 16 % 16).digitChar, (n % 16).digitChar] := by
  have hbase : 1 < 16 := by decide
  unfold hexDigits
  by_cases h₁ : n < 16
  · have hzero : n / 4096 = 0 ∧ n / 256 = 0 ∧ n / 16 = 0 ∧ n % 16 = n := by omega
    rw [Nat.toDigits_of_lt_base h₁, hzero.1, hzero.2.1, hzero.2.2.1, hzero.2.2.2]
    rfl
  rw [Nat.toDigits_of_base_le hbase (by omega)]
  by_cases h₂ : n / 16 < 16
  · have hzero : n / 4096 = 0 ∧ n / 256 = 0 ∧ n / 16 % 16 = n / 16 := by omega
    rw [Nat.toDigits_of_lt_base h₂, hzero.1, hzero.2.1, hzero.2.2]
    rfl
  rw [Nat.toDigits_of_base_le hbase (by omega), Nat.div_div_eq_div_mul]
  by_cases h₃ : n / 256 < 16
  · have hzero : n / 4096 = 0 ∧ n / 256 % 16 = n / 256 := by omega
    rw [Nat.toDigits_of_lt_base h₃, hzero.1, hzero.2]
    rfl
  rw [Nat.toDigits_of_base_le hbase (by omega), Nat.div_div_eq_div_mul, Nat.toDigits_of_lt_base (by omega)]
  rfl

namespace Json

theorem hexDigit?_digitChar {d : Nat} (h : d < 16) : hexDigit? d.digitChar = some d := by
  have hall : ∀ d : Fin 16, hexDigit? d.val.digitChar = some d.val := by decide
  exact hall ⟨d, h⟩

/-- The digits of a unit are read as the unit. -/
theorem hexUnit?_digits {n : Nat} (h : n < 0x10000) :
    hexUnit? (n / 4096).digitChar (n / 256 % 16).digitChar (n / 16 % 16).digitChar (n % 16).digitChar = some n := by
  rw [hexUnit?, hexDigit?_digitChar (by omega), hexDigit?_digitChar (by omega), hexDigit?_digitChar (by omega),
    hexDigit?_digitChar (by omega)]
  refine congrArg some ?_
  omega

/-! ## Characters -/

section Reading

variable {quoted rest : List Char} {stays : Char → Bool} {c : Char}

/-- A unit of its own. -/
theorem readChars_unit {n : Nat} (hn : n < 0x10000) (hhigh : isHighUnit n = false) (hrest : rest ≠ []) :
    readChars quoted none (escapeUnit n ++ rest) =
      (readChars quoted none rest).map fun run => (ofUnit n :: run.1, run.2) := by
  obtain ⟨next, rest, rfl⟩ := List.exists_cons_of_ne_nil hrest
  rw [escapeUnit, hexDigits_four hn]
  simp only [List.cons_append, List.nil_append, readChars, hexUnit?_digits hn, hhigh]
  rfl

/-- The two units of a pair. -/
theorem readChars_pair {high low : Nat} (hhigh : isHighUnit high = true) (hlow : isLowUnit low = true) (hrest : rest ≠ []) :
    readChars quoted none (escapeUnit high ++ (escapeUnit low ++ rest)) =
      (readChars quoted none rest).map fun run => (ofPair high low :: run.1, run.2) := by
  obtain ⟨next, rest, rfl⟩ := List.exists_cons_of_ne_nil hrest
  have hn : high < 0x10000 := by simp [isHighUnit] at hhigh; omega
  have hm : low < 0x10000 := by simp [isLowUnit] at hlow; omega
  rw [escapeUnit, hexDigits_four hn, escapeUnit, hexDigits_four hm]
  simp only [List.cons_append, List.nil_append, readChars, hexUnit?_digits hn, hexUnit?_digits hm, hhigh, hlow]
  rfl

/-- A letter after a backslash. -/
theorem readChars_letter {letter : Char} (h : escapeLetter? c = some letter) :
    readChars quoted none ('\\' :: letter :: rest) =
      (readChars quoted none rest).map fun run => (c :: run.1, run.2) := by
  have hletter : letter ≠ 'u' ∧ unescapeLetter? letter = some c := by
    unfold escapeLetter? at h
    repeat' split at h
    all_goals first
      | (subst_vars; cases h; decide)
      | cases h
  rw [readChars]
  · rw [hletter.2]
    rfl
  · exact fun _ _ _ _ _ _ hu => absurd hu hletter.1
  · exact fun hu => absurd hu hletter.1

/-- A character that stands for itself. -/
theorem readChars_plain (h : escapeLetter? c = none) (hc : 0x20 ≤ c.toNat) :
    readChars quoted none (c :: rest) = (readChars quoted none rest).map fun run => (c :: run.1, run.2) := by
  have hquote : c ≠ '"' := by rintro rfl; cases h
  have hslash : c ≠ '\\' := by rintro rfl; cases h
  rw [readChars]
  · rw [if_neg (by omega)]
    rfl
  all_goals simp_all

/-- A unit that is half a pair is no character. -/
theorem not_half (c : Char) : isHighUnit c.toNat = false ∧ isLowUnit c.toNat = false := by
  have hvalid : c.toNat < 0xD800 ∨ 0xDFFF < c.toNat ∧ c.toNat < 0x110000 := c.valid
  simp only [isHighUnit, isLowUnit, Bool.and_eq_false_iff, decide_eq_false_iff_not]
  omega

/-- A character is read back from its escape. -/
theorem readChars_escapeChar (hstays : ∀ c, stays c = true → 0x20 ≤ c.toNat) (hrest : rest ≠ []) :
    readChars quoted none (escapeChar stays c ++ rest) =
      (readChars quoted none rest).map fun run => (c :: run.1, run.2) := by
  unfold escapeChar
  cases hletter : escapeLetter? c with
  | some letter => exact readChars_letter hletter
  | none =>
    simp only
    by_cases hc : stays c = true
    · rw [if_pos hc]
      exact readChars_plain hletter (hstays c hc)
    rw [if_neg hc]
    unfold escapeCode
    obtain ⟨hhigh, hlow⟩ := not_half c
    by_cases hn : c.toNat < 0x10000
    · simp only [if_pos hn]
      rw [readChars_unit hn hhigh hrest, ofUnit, hhigh, hlow, Char.ofNat_toNat]
      rfl
    · simp only [if_neg hn]
      have hvalid : c.toNat < 0xD800 ∨ 0xDFFF < c.toNat ∧ c.toNat < 0x110000 := c.valid
      have hh : isHighUnit (0xD800 + (c.toNat - 0x10000) / 0x400) = true := by
        simp only [isHighUnit, Bool.and_eq_true, decide_eq_true_eq]
        omega
      have hl : isLowUnit (0xDC00 + (c.toNat - 0x10000) % 0x400) = true := by
        simp only [isLowUnit, Bool.and_eq_true, decide_eq_true_eq]
        omega
      have hcode : 0x10000 + (0xD800 + (c.toNat - 0x10000) / 0x400 - 0xD800) * 0x400 +
          (0xDC00 + (c.toNat - 0x10000) % 0x400 - 0xDC00) = c.toNat := by omega
      rw [List.append_assoc, readChars_pair hh hl hrest, ofPair, hcode, Char.ofNat_toNat]

end Reading

/-! ## Strings -/

theorem readChars_flatMap {stays : Char → Bool} (hstays : ∀ c, stays c = true → 0x20 ≤ c.toNat) (quoted rest : List Char)
    (cs : List Char) : readChars quoted none (cs.flatMap (escapeChar stays) ++ '"' :: rest) = .ok (cs, rest) := by
  induction cs with
  | nil => simp [readChars]
  | cons c cs ih =>
    rw [List.flatMap_cons, List.append_assoc, readChars_escapeChar hstays (by simp), ih]
    rfl

/-- A string is read back from its text, whatever follows. -/
theorem readString_quoteWith {stays : Char → Bool} (hstays : ∀ c, stays c = true → 0x20 ≤ c.toNat) (s : String)
    (rest : List Char) : readString ((quoteWith stays s).toList.tail ++ rest) = .ok (s, rest) := by
  have htext : (quoteWith stays s).toList.tail ++ rest = s.toList.flatMap (escapeChar stays) ++ '"' :: rest := by
    simp [quoteWith]
  rw [readString, htext, readChars_flatMap hstays]
  exact congrArg (fun s => Except.ok (s, rest)) String.ofList_toList

end Json

/-- The text of a string tells the string and where it ends. -/
theorem quoteWith_cut {stays : Char → Bool} (hstays : ∀ c, stays c = true → 0x20 ≤ c.toNat) {s t : String}
    {rest rest' : List Char} (h : (quoteWith stays s).toList ++ rest = (quoteWith stays t).toList ++ rest') :
    s = t ∧ rest = rest' := by
  have hs := Json.readString_quoteWith hstays s rest
  have ht := Json.readString_quoteWith hstays t rest'
  have htail : (quoteWith stays s).toList.tail ++ rest = (quoteWith stays t).toList.tail ++ rest' := by
    simpa [quoteWith] using h
  rw [htail, ht] at hs
  obtain ⟨rfl, rfl⟩ := Prod.mk.inj (Except.ok.inj hs)
  exact ⟨rfl, rfl⟩

theorem quoteAscii_cut {s t : String} {rest rest' : List Char}
    (h : (quoteAscii s).toList ++ rest = (quoteAscii t).toList ++ rest') : s = t ∧ rest = rest' :=
  quoteWith_cut (fun c hc => by simp at hc; omega) h

end ScriptTrace
