import ScriptTrace.Json.Printer

/-!
# The characters of a number's text

Whatever digits are chosen, a number is written in letters, digits, signs and points, and begins with a sign,
a digit or one of the words for the special values. So its text never runs into what follows a value, and is
no other word of JSON.

* `IsNumberText` : what is known of the characters;
* `NumberLayout.isNumberText_write` : digits in any layout;
* `Json.isNumberText_int`, `Json.isNumberText_float` : numbers in JSON text.
-/

namespace ScriptTrace

/-- The characters of words and numbers. -/
def isTokenChar (c : Char) : Bool := c.isAlphanum || c == '-' || c == '+' || c == '.'

theorem token_of_all {cs : List Char} (h : cs.all isTokenChar = true) : ∀ c ∈ cs, isTokenChar c = true := List.all_eq_true.1 h

/-- The characters that a number begins with. -/
def startsNumber (c : Char) : Bool := c.isDigit || c == '-' || c == 'I' || c == 'N'

structure IsNumberText (cs : List Char) : Prop where
  token : ∀ c ∈ cs, isTokenChar c = true
  start : ∃ c rest, cs = c :: rest ∧ startsNumber c = true

/-- A text that begins with a digit. -/
structure IsDigitText (cs : List Char) : Prop where
  token : ∀ c ∈ cs, isTokenChar c = true
  start : ∃ c rest, cs = c :: rest ∧ c.isDigit = true

theorem isTokenChar_of_isDigit {c : Char} (h : c.isDigit = true) : isTokenChar c = true := by
  simp [isTokenChar, Char.isAlphanum, h]

theorem IsDigitText.isNumberText {cs : List Char} (h : IsDigitText cs) : IsNumberText cs := by
  obtain ⟨c, rest, rfl, hc⟩ := h.start
  exact ⟨h.token, c, rest, rfl, by simp [startsNumber, hc]⟩

theorem IsDigitText.negative {cs : List Char} (h : IsDigitText cs) : IsNumberText ('-' :: cs) := by
  refine ⟨fun c hc => ?_, '-', cs, rfl, by decide⟩
  rcases List.mem_cons.1 hc with rfl | hc
  · decide
  · exact h.token c hc

/-- Digits with more token characters behind them. -/
theorem IsDigitText.append {cs ds : List Char} (h : IsDigitText cs) (hds : ∀ c ∈ ds, isTokenChar c = true) :
    IsDigitText (cs ++ ds) := by
  obtain ⟨c, rest, rfl, hc⟩ := h.start
  refine ⟨fun d hd => ?_, c, rest ++ ds, rfl, hc⟩
  rcases List.mem_append.1 hd with hd | hd
  · exact h.token d hd
  · exact hds d hd

theorem isDigitText_of_all {cs : List Char} (hne : cs ≠ []) (h : ∀ c ∈ cs, c.isDigit = true) : IsDigitText cs := by
  obtain ⟨c, rest, rfl⟩ := List.exists_cons_of_ne_nil hne
  exact ⟨fun d hd => isTokenChar_of_isDigit (h d hd), c, rest, rfl, h c (by simp)⟩

theorem isDigit_of_mem_toDigits {n : Nat} {c : Char} (h : c ∈ Nat.toDigits 10 n) : c.isDigit = true :=
  Nat.isDigit_of_mem_toDigits (by decide) (by decide) h

theorem isDigitText_toDigits (n : Nat) : IsDigitText (Nat.toDigits 10 n) :=
  isDigitText_of_all Nat.toDigits_ne_nil fun _ => isDigit_of_mem_toDigits

namespace NumberLayout

theorem token_exponentText (power : Int) : ∀ c ∈ (exponentText power).toList, isTokenChar c = true := by
  have hdigits : ∀ c ∈ (String.ofList (Nat.toDigits 10 power.natAbs)).toList, isTokenChar c = true := by
    rw [String.toList_ofList]
    exact fun c hc => isTokenChar_of_isDigit (isDigit_of_mem_toDigits hc)
  intro c hc
  rw [exponentText, String.toList_append, List.mem_append] at hc
  rcases hc with hc | hc
  · have hsign : ∀ c ∈ (if power < 0 then "e-" else "e+").toList, isTokenChar c = true := by
      split
      · exact token_of_all (by decide)
      · exact token_of_all (by decide)
    exact hsign c hc
  · split at hc
    · rw [String.toList_append, List.mem_append] at hc
      exact hc.elim (token_of_all (show "0".toList.all isTokenChar = true by decide) c) (hdigits c)
    · exact hdigits c hc

theorem isDigitText_positional (layout : NumberLayout) {digits : List Char} (hne : digits ≠ [])
    (hdigits : ∀ c ∈ digits, c.isDigit = true) (power : Int) : IsDigitText (layout.positional digits power).toList := by
  have hzeros (n : Nat) : ∀ c ∈ List.replicate n '0', c.isDigit = true := fun c hc => by
    rw [List.eq_of_mem_replicate hc]
    decide
  have hrest {k : Nat} : ∀ c ∈ '.' :: digits.drop k, isTokenChar c = true := fun c hc => by
    rcases List.mem_cons.1 hc with rfl | hc
    · decide
    · exact isTokenChar_of_isDigit (hdigits c (List.mem_of_mem_drop hc))
  unfold positional
  split
  · have htoken : ∀ c ∈ '.' :: (List.replicate ((-power).toNat - 1) '0' ++ digits), isTokenChar c = true := fun c hc => by
      rcases List.mem_cons.1 hc with rfl | hc
      · decide
      · exact isTokenChar_of_isDigit ((List.mem_append.1 hc).elim (hzeros _ c) (hdigits c))
    have hzero : IsDigitText ['0'] := isDigitText_of_all (by simp) (hzeros 1)
    simpa using hzero.append htoken
  · have hfilled : IsDigitText (digits.take (power.toNat + 1) ++
        List.replicate (power.toNat + 1 - (digits.take (power.toNat + 1)).length) '0') := by
      obtain ⟨d, ds, rfl⟩ := List.exists_cons_of_ne_nil hne
      refine isDigitText_of_all (by simp) fun c hc => ?_
      exact (List.mem_append.1 hc).elim (fun hc => hdigits c (List.mem_of_mem_take hc)) (hzeros _ c)
    simp only
    split
    · rw [String.toList_append, String.toList_ofList]
      refine hfilled.append fun c hc => ?_
      split at hc
      · obtain rfl | rfl : c = '.' ∨ c = '0' := by simpa using hc
        · decide
        · decide
      · simp at hc
    · rw [String.toList_append, String.toList_append, String.toList_ofList, List.append_assoc]
      refine hfilled.append ?_
      rw [String.toList_ofList, String.toList_ofList]
      exact hrest

theorem isDigitText_scientific {digits : List Char} (hne : digits ≠ []) (hdigits : ∀ c ∈ digits, c.isDigit = true)
    (power : Int) : IsDigitText (scientific digits power).toList := by
  obtain ⟨d, ds, rfl⟩ := List.exists_cons_of_ne_nil hne
  have hd : IsDigitText [d] := isDigitText_of_all (by simp) fun c hc => hdigits c (by simp_all)
  cases ds with
  | nil =>
    rw [scientific, String.toList_append, String.toList_ofList]
    · exact hd.append (token_exponentText power)
    · simp
  | cons e es =>
    have htoken : ∀ c ∈ '.' :: e :: es, isTokenChar c = true := fun c hc => by
      rcases List.mem_cons.1 hc with rfl | hc
      · decide
      · exact isTokenChar_of_isDigit (hdigits c (List.mem_cons_of_mem d hc))
    rw [scientific, String.toList_append, String.toList_ofList]
    exact (hd.append htoken).append (token_exponentText power)

theorem isDigitText_write (layout : NumberLayout) (d : Digits) : IsDigitText (layout.write d).toList := by
  have hdigits : ∀ c ∈ d.chars, c.isDigit = true := fun _ => isDigit_of_mem_toDigits
  unfold write
  split
  · exact layout.isDigitText_positional Nat.toDigits_ne_nil hdigits d.power
  · exact isDigitText_scientific Nat.toDigits_ne_nil hdigits d.power

end NumberLayout

namespace Json

theorem isNumberText_int (n : Int) : IsNumberText (toString n).toList := by
  rw [Int.toString_eq_repr, Int.repr_eq_if]
  split
  · rw [Nat.toList_repr]
    exact (isDigitText_toDigits _).isNumberText
  · rw [String.toList_append, Nat.toList_repr]
    exact (isDigitText_toDigits _).negative

theorem isNumberText_float (x : Binary64) : IsNumberText (floatText x).toList := by
  cases x with
  | nan => exact ⟨token_of_all (by decide), 'N', _, rfl, by decide⟩
  | infinite negative =>
    cases negative with
    | true => exact ⟨token_of_all (by decide), '-', _, rfl, by decide⟩
    | false => exact ⟨token_of_all (by decide), 'I', _, rfl, by decide⟩
  | finite negative m e =>
    have hwrite := NumberLayout.isDigitText_write .plain (if m = 0 then ⟨0, 0⟩ else Binary64.shortest m e)
    rw [floatText, Binary64.text, NumberLayout.writeNumber, String.toList_append]
    · cases negative with
      | true => exact hwrite.negative
      | false => exact hwrite.isNumberText
    all_goals simp

end Json

end ScriptTrace
