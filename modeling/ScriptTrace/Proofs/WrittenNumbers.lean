import ScriptTrace.Proofs.ThrownText
import ScriptTrace.Number.Reading

/-!
# How numbers are written

Which texts are read as numbers, and as which ones: the grammar that the readers of numbers go by. Digits are those of
any script, white space may stand around a number, and a sign in front of it.

* `DigitText` : digits, with single underscores between some of them; `digitRun_eq` : the digits in front of a text;
* `IntegerText` : integers; `readInteger_eq_some` : what is read is what is written;
* `MagnitudeText`, `DecimalText` : numbers with optional fraction and exponent, and the words for infinity and for no
  number; `readDecimal_eq_some`;
* `NoNumberText`, `decimalText_nan` : the texts that stand for no number.
-/

namespace ScriptTrace

/-! ## Characters -/

section Characters

variable {c : Char} {d : Nat} {space : Char → Bool}

/-- Lower case is another character for the letters from A to Z alone. -/
theorem toLower_cases (c : Char) : c.toLower = c ∨ ∃ i < 26, c = Char.ofNat (65 + i) := by
  by_cases h : c.val ≥ 'A'.val ∧ c.val ≤ 'Z'.val
  · have hlow : 65 ≤ c.toNat := h.1
    have hhigh : c.toNat ≤ 90 := h.2
    refine .inr ⟨c.toNat - 65, by omega, ?_⟩
    rw [Nat.add_sub_cancel' hlow, Char.ofNat_toNat]
  · exact .inl (dif_neg h)

theorem isBlank_toLower (c : Char) : isBlank c.toLower = isBlank c := by
  obtain h | ⟨i, hi, rfl⟩ := toLower_cases c
  · rw [h]
  · revert i
    decide

theorem decimalDigit?_toLower (c : Char) : decimalDigit? c.toLower = decimalDigit? c := by
  obtain h | ⟨i, hi, rfl⟩ := toLower_cases c
  · rw [h]
  · revert i
    decide

theorem isWhiteSpace_of_isBlank (h : isBlank c = false) : isWhiteSpace c = false := (Bool.or_eq_false_iff.1 h).1

/-- No digit of any script is space. -/
theorem isBlank_of_digit (h : decimalDigit? c = some d) : isBlank c = false := by
  have hrows : ∀ z ∈ decimalZeros, ∀ i < 10, whiteSpace.any (fun r => r.1 ≤ z + i && z + i ≤ r.2) = false ∧ 0x1F < z + i := by
    decide +kernel
  obtain ⟨z, hz, -⟩ := Option.map_eq_some_iff.1 h
  have hrange := List.find?_some hz
  rw [Bool.and_eq_true, decide_eq_true_eq, decide_eq_true_eq] at hrange
  obtain ⟨hspace, hlow⟩ := hrows z (List.mem_of_find?_eq_some hz) (c.toNat - z) (by omega)
  rw [Nat.add_sub_cancel' hrange.1] at hspace hlow
  rw [isBlank, isWhiteSpace, CharTable.contains, hspace, Bool.false_or, Bool.and_eq_false_iff]
  exact .inr (decide_eq_false (by omega))

/-- A character with a value is none that has a meaning of its own in a number. -/
theorem digit_ne (h : decimalDigit? c = some d) {e : Char} (he : decimalDigit? e = none) : c ≠ e := by
  rintro rfl
  rw [he] at h
  cases h

theorem isTrimmed_of_all {cs : List Char} (h : ∀ c ∈ cs, space c = false) : IsTrimmed space cs :=
  ⟨fun hne => h _ (List.head_mem hne), fun hne => h _ (List.getLast_mem hne)⟩

end Characters

/-! ## Digits -/

/-- Digits with their values. A single underscore may stand between two of them. -/
inductive DigitText : List Nat → List Char → Prop
  | nil : DigitText [] []
  | digit {c : Char} {d : Nat} {ds : List Nat} {cs : List Char} : decimalDigit? c = some d → DigitText ds cs →
      DigitText (d :: ds) (c :: cs)
  | grouped {c : Char} {d : Nat} {ds : List Nat} {cs : List Char} : decimalDigit? c = some d → ds ≠ [] → DigitText ds cs →
      DigitText (d :: ds) (c :: '_' :: cs)

/-- A text does not go on with digits. -/
def StopsDigits (rest : List Char) : Prop := ∀ c ∈ rest.head?, decimalDigit? c = none ∧ c ≠ '_'

namespace DigitText

variable {ds : List Nat} {cs rest : List Char}

theorem head (h : DigitText ds cs) (hne : ds ≠ []) : ∃ c d more, cs = c :: more ∧ decimalDigit? c = some d := by
  cases h with
  | nil => exact absurd rfl hne
  | digit hc | grouped hc => exact ⟨_, _, _, rfl, hc⟩

theorem isBlank (h : DigitText ds cs) : ∀ c ∈ cs, isBlank c = false := by
  induction h with
  | nil => nofun
  | digit hc _ ih => exact List.forall_mem_cons.2 ⟨isBlank_of_digit hc, ih⟩
  | grouped hc _ _ ih => exact List.forall_mem_cons.2 ⟨isBlank_of_digit hc, List.forall_mem_cons.2 ⟨by decide, ih⟩⟩

/-- Behind an underscore as well the digits in front are found, up to the first place where no digits go on. -/
theorem digitRunFrom_append (h : DigitText ds cs) (hrest : StopsDigits rest) (inside : Bool) :
    digitRunFrom decimalDigit? inside (cs ++ rest) = (ds, rest) := by
  induction h generalizing inside with
  | nil =>
    cases rest with
    | nil => rfl
    | cons c rest =>
      obtain ⟨hdigit, hunderscore⟩ := hrest c rfl
      simp [digitRunFrom, hdigit, hunderscore]
  | digit hc _ ih => rw [List.cons_append, digitRunFrom, hc, ih true]
  | @grouped c d ds cs hc hne _ ih =>
    obtain ⟨d', ds', rfl⟩ := List.exists_cons_of_ne_nil hne
    have hunderscore : decimalDigit? '_' = none := by decide
    rw [List.cons_append, List.cons_append, digitRunFrom, hc]
    simp only [digitRunFrom, hunderscore, ih false, Bool.true_and, beq_self_eq_true, if_true]

end DigitText

section DigitRuns

variable {ds : List Nat} {cs rest : List Char}

/-- The digits that are found are digits. An underscore in front of them is taken along behind a digit. -/
theorem exists_of_digitRunFrom {inside : Bool} (h : digitRunFrom decimalDigit? inside cs = (ds, rest)) :
    ∃ front, cs = front ++ rest ∧
      (DigitText ds front ∨ ∃ more, inside = true ∧ ds ≠ [] ∧ front = '_' :: more ∧ DigitText ds more) := by
  induction cs generalizing inside ds rest with
  | nil =>
    cases h
    exact ⟨[], rfl, .inl .nil⟩
  | cons c cs ih =>
    rw [digitRunFrom] at h
    cases hc : decimalDigit? c with
    | some d =>
      cases hrun : digitRunFrom decimalDigit? true cs with
      | mk ds' rest' =>
        rw [hc] at h
        simp only [hrun, Prod.mk.injEq] at h
        obtain ⟨rfl, rfl⟩ := h
        obtain ⟨front, rfl, htext | ⟨more, -, hne, rfl, htext⟩⟩ := ih hrun
        · exact ⟨c :: front, rfl, .inl (.digit hc htext)⟩
        · exact ⟨c :: '_' :: more, rfl, .inl (.grouped hc hne htext)⟩
    | none =>
      simp only [hc] at h
      split at h
      · rename_i hunderscore
        obtain ⟨rfl, rfl⟩ : inside = true ∧ c = '_' := by simpa using hunderscore
        cases hrun : digitRunFrom decimalDigit? false cs with
        | mk ds' rest' =>
          rw [hrun] at h
          cases ds' with
          | nil =>
            cases h
            exact ⟨[], rfl, .inl .nil⟩
          | cons d ds' =>
            cases h
            obtain ⟨front, rfl, htext | ⟨_, hfalse, _⟩⟩ := ih hrun
            · exact ⟨'_' :: front, rfl, .inr ⟨front, rfl, List.cons_ne_nil _ _, rfl, htext⟩⟩
            · cases hfalse
      · cases h
        exact ⟨[], rfl, .inl .nil⟩

theorem exists_of_digitRun (h : digitRun decimalDigit? cs = (ds, rest)) : ∃ front, cs = front ++ rest ∧ DigitText ds front := by
  obtain ⟨front, hcs, htext | ⟨_, hfalse, _⟩⟩ := exists_of_digitRunFrom h
  · exact ⟨front, hcs, htext⟩
  · cases hfalse

theorem DigitText.digitRun_append (h : DigitText ds cs) (hrest : StopsDigits rest) :
    digitRun decimalDigit? (cs ++ rest) = (ds, rest) := h.digitRunFrom_append hrest false

theorem digitRun_eq : digitRun decimalDigit? cs = (ds, []) ↔ DigitText ds cs := by
  constructor
  · intro h
    obtain ⟨front, rfl, htext⟩ := exists_of_digitRun h
    rwa [List.append_nil]
  · intro h
    have hrun : digitRun decimalDigit? (cs ++ []) = (ds, []) := h.digitRun_append nofun
    rwa [List.append_nil] at hrun

end DigitRuns

/-! ## Signs -/

/-- A sign, or none; whether it is a minus. -/
inductive SignText : Bool → List Char → Prop
  | absent : SignText false []
  | plus : SignText false ['+']
  | minus : SignText true ['-']

section Signs

variable {negative : Bool} {sign cs rest : List Char}

theorem exists_of_readSign (h : readSign cs = (negative, rest)) : ∃ sign, SignText negative sign ∧ cs = sign ++ rest := by
  unfold readSign at h
  split at h
  · cases h
    exact ⟨_, .minus, rfl⟩
  · cases h
    exact ⟨_, .plus, rfl⟩
  · cases h
    exact ⟨_, .absent, rfl⟩

theorem SignText.readSign_append (h : SignText negative sign) (hrest : ∀ c ∈ rest.head?, c ≠ '-' ∧ c ≠ '+') :
    readSign (sign ++ rest) = (negative, rest) := by
  cases h with
  | absent =>
    rw [List.nil_append, readSign]
    · rintro cs rfl
      exact (hrest _ rfl).1 rfl
    · rintro cs rfl
      exact (hrest _ rfl).2 rfl
  | plus => rfl
  | minus => rfl

theorem SignText.isBlank (h : SignText negative sign) : ∀ c ∈ sign, isBlank c = false := by
  cases h with
  | absent => nofun
  | plus | minus => exact List.forall_mem_singleton.2 (by decide)

end Signs

/-- Digits are no signs. -/
theorem DigitText.head_ne_sign {ds : List Nat} {cs : List Char} (h : DigitText ds cs) (hne : ds ≠ []) :
    ∀ c ∈ cs.head?, c ≠ '-' ∧ c ≠ '+' := by
  obtain ⟨c, d, more, rfl, hc⟩ := h.head hne
  rintro _ ⟨⟩
  exact ⟨digit_ne hc (by decide), digit_ne hc (by decide)⟩

/-! ## Integers -/

/-- A text says nothing but `inner`, with white space around it. -/
def Surrounds (text inner : List Char) : Prop := ∃ before after, text = before ++ (inner ++ after) ∧
  (∀ c ∈ before, isWhiteSpace c = true) ∧ ∀ c ∈ after, isWhiteSpace c = true

theorem surrounds_trimChars (text : List Char) : Surrounds text (trimChars isWhiteSpace text) := by
  obtain ⟨before, after, htext, hbefore, hafter⟩ := exists_trim isWhiteSpace text
  exact ⟨before, after, by rwa [List.append_assoc] at htext, hbefore, hafter⟩

theorem Surrounds.trimChars_eq {text inner : List Char} (h : Surrounds text inner) (hne : inner ≠ [])
    (hblank : ∀ c ∈ inner, isBlank c = false) : trimChars isWhiteSpace text = inner := by
  obtain ⟨before, after, rfl, hbefore, hafter⟩ := h
  exact trimChars_around (isTrimmed_of_all fun c hc => isWhiteSpace_of_isBlank (hblank c hc)) hne hbefore hafter

/-- An integer: a sign, if any, and digits, not too many. -/
inductive IntegerText (text : String) : Int → Prop
  | intro {negative : Bool} {sign cs : List Char} {ds : List Nat} : Surrounds text.toList (sign ++ cs) →
      SignText negative sign → DigitText ds cs → ds ≠ [] → ds.length ≤ maxDigits →
      IntegerText text (signed negative (ofDigits ds))

theorem readInteger_eq_some {text : String} {n : Int} : readInteger text = some n ↔ IntegerText text n := by
  constructor
  · intro h
    unfold readInteger at h
    cases hsign : readSign (trimChars isWhiteSpace text.toList) with
    | mk negative cs =>
      simp only [hsign] at h
      split at h
      · rename_i d ds hrun
        split at h
        · rename_i hlength
          cases h
          obtain ⟨sign, hsign, hcs⟩ := exists_of_readSign hsign
          exact .intro (hcs ▸ surrounds_trimChars _) hsign (digitRun_eq.1 hrun) (List.cons_ne_nil _ _) hlength
        · cases h
      · cases h
  · rintro ⟨htext, hsign, hdigits, hne, hlength⟩
    rename_i negative sign cs ds
    obtain ⟨c, d, more, hcs, -⟩ := hdigits.head hne
    have htrim := htext.trimChars_eq (by simp [hcs]) fun c hc => (List.mem_append.1 hc).elim (hsign.isBlank c) (hdigits.isBlank c)
    have hread := hsign.readSign_append (hdigits.head_ne_sign hne)
    obtain ⟨d', ds', rfl⟩ := List.exists_cons_of_ne_nil hne
    simp only [readInteger, htrim, hread, digitRun_eq.2 hdigits, if_pos hlength]

example : readInteger " -1_0" = some (-10) := by decide +kernel

/-! ## Numbers with a fraction and an exponent -/

/-- A point and the digits behind it, or nothing. -/
inductive FractionText : List Nat → List Char → Prop
  | absent : FractionText [] []
  | point {ds : List Nat} {cs : List Char} : DigitText ds cs → FractionText ds ('.' :: cs)

/-- The power of ten behind the digits, or nothing. -/
inductive ExponentText : Int → List Char → Prop
  | absent : ExponentText 0 []
  | power {mark : Char} {negative : Bool} {sign cs : List Char} {ds : List Nat} : mark = 'e' ∨ mark = 'E' →
      SignText negative sign → DigitText ds cs → ds ≠ [] → ExponentText (signed negative (ofDigits ds)) (mark :: (sign ++ cs))

/-- A number without its sign, which is given. -/
inductive MagnitudeText (negative : Bool) : List Char → Binary64 → Prop
  | infinity {cs : List Char} : cs.map Char.toLower = "inf".toList ∨ cs.map Char.toLower = "infinity".toList →
      MagnitudeText negative cs (.infinite negative)
  | nan {cs : List Char} : cs.map Char.toLower = "nan".toList → MagnitudeText negative cs .nan
  | number {whole fraction : List Nat} {power : Int} {front point exponent : List Char} : DigitText whole front →
      FractionText fraction point → whole ++ fraction ≠ [] → ExponentText power exponent →
      MagnitudeText negative (front ++ (point ++ exponent))
        (Binary64.ofDecimal negative (ofDigits (whole ++ fraction)) (power - fraction.length))

/-- A number with its sign, if any, and white space around it. -/
inductive DecimalText (text : String) (x : Binary64) : Prop
  | intro {negative : Bool} {sign cs : List Char} : Surrounds text.toList (sign ++ cs) → SignText negative sign →
      MagnitudeText negative cs x → DecimalText text x

section Decimals

variable {negative : Bool} {power : Int} {ds fraction : List Nat} {cs rest : List Char} {x : Binary64}

theorem readExponent_eq_some : readExponent decimalDigit? cs = some power ↔ ExponentText power cs := by
  constructor
  · intro h
    unfold readExponent at h
    split at h
    · cases h
      exact .absent
    · rename_i c cs
      split at h
      · rename_i hmark
        cases hread : readSign cs with
        | mk negative rest =>
          simp only [hread] at h
          split at h
          · rename_i d ds hrun
            cases h
            obtain ⟨sign, hsign, rfl⟩ := exists_of_readSign hread
            exact .power hmark hsign (digitRun_eq.1 hrun) (List.cons_ne_nil _ _)
          · cases h
      · cases h
  · rintro (_ | ⟨hmark, hsign, hdigits, hne⟩)
    · rfl
    · have hread := hsign.readSign_append (hdigits.head_ne_sign hne)
      obtain ⟨d, ds, rfl⟩ := List.exists_cons_of_ne_nil hne
      simp only [readExponent, if_pos hmark, hread, digitRun_eq.2 hdigits]

/-- What an exponent begins with. -/
theorem ExponentText.head (h : ExponentText power cs) : ∀ c ∈ cs.head?, c = 'e' ∨ c = 'E' := by
  cases h with
  | absent => nofun
  | power hmark =>
    rintro _ ⟨⟩
    exact hmark

theorem ExponentText.stops (h : ExponentText power cs) : StopsDigits cs := by
  intro c hc
  rcases h.head c hc with rfl | rfl <;> decide

theorem ExponentText.isBlank (h : ExponentText power cs) : ∀ c ∈ cs, isBlank c = false := by
  cases h with
  | absent => nofun
  | power hmark hsign hdigits =>
    refine List.forall_mem_cons.2 ⟨by rcases hmark with rfl | rfl <;> decide, fun c hc => ?_⟩
    exact (List.mem_append.1 hc).elim (hsign.isBlank c) (hdigits.isBlank c)

theorem FractionText.stops {point exponent : List Char} (h : FractionText fraction point) (hexponent : ExponentText power exponent) :
    StopsDigits (point ++ exponent) := by
  cases h with
  | absent => exact hexponent.stops
  | point =>
    rintro _ ⟨⟩
    decide

theorem FractionText.isBlank (h : FractionText fraction cs) : ∀ c ∈ cs, ScriptTrace.isBlank c = false := by
  cases h with
  | absent => nofun
  | point hdigits => exact List.forall_mem_cons.2 ⟨by decide, hdigits.isBlank⟩

/-- What a number without its sign begins with, unless it is a word. -/
theorem exists_head_number {whole : List Nat} {front point : List Char} (exponent : List Char) (hwhole : DigitText whole front)
    (hpoint : FractionText fraction point) (hne : whole ++ fraction ≠ []) :
    ∃ c more, front ++ (point ++ exponent) = c :: more ∧ ((∃ d, decimalDigit? c = some d) ∨ c = '.') := by
  cases hwhole with
  | nil =>
    cases hpoint with
    | absent => exact absurd rfl hne
    | point => exact ⟨'.', _, rfl, .inr rfl⟩
  | digit hc | grouped hc => exact ⟨_, _, rfl, .inl ⟨_, hc⟩⟩

/-- Whether a character is neither a digit nor a point. -/
def isWordHead (c : Char) : Bool := (decimalDigit? c).isNone && c != '.'

theorem map_toLower_ne {c : Char} {more : List Char} (h : (∃ d, decimalDigit? c = some d) ∨ c = '.') {word : List Char}
    (hword : word.head?.all isWordHead = true) : (c :: more).map Char.toLower ≠ word := by
  rintro rfl
  obtain ⟨hdigit, hpoint⟩ := Bool.and_eq_true_iff.1 hword
  rw [Option.isNone_iff_eq_none, decimalDigit?_toLower] at hdigit
  rcases h with ⟨d, hc⟩ | rfl
  · rw [hdigit] at hc
    cases hc
  · cases hpoint

/-! ### Reading -/

/-- The digits behind a point, if there is one, and the rest. -/
def readFraction : List Char → List Nat × List Char
  | '.' :: rest => digitRun decimalDigit? rest
  | rest => ([], rest)

theorem exists_of_readFraction (h : readFraction cs = (fraction, rest)) :
    ∃ point, FractionText fraction point ∧ cs = point ++ rest := by
  unfold readFraction at h
  split at h
  · obtain ⟨digits, rfl, hdigits⟩ := exists_of_digitRun h
    exact ⟨'.' :: digits, .point hdigits, rfl⟩
  · cases h
    exact ⟨[], .absent, rfl⟩

theorem FractionText.readFraction_append {point exponent : List Char} (h : FractionText fraction point)
    (hexponent : ExponentText power exponent) : readFraction (point ++ exponent) = (fraction, exponent) := by
  cases h with
  | absent =>
    rw [List.nil_append, readFraction]
    rintro rest rfl
    rcases hexponent.head _ rfl with hpoint | hpoint <;> cases hpoint
  | point hdigits => exact hdigits.digitRun_append hexponent.stops

theorem ofList_map_eq {word : String} : String.ofList (cs.map Char.toLower) = word ↔ cs.map Char.toLower = word.toList := by
  rw [← String.toList_inj, String.toList_ofList]

theorem readMagnitude_infinity (h : cs.map Char.toLower = "inf".toList ∨ cs.map Char.toLower = "infinity".toList) :
    readMagnitude decimalDigit? negative cs = some (.infinite negative) := by
  rcases h with h | h <;> rw [readMagnitude, ofList_map_eq.2 h] <;> rfl

theorem readMagnitude_nan (h : cs.map Char.toLower = "nan".toList) : readMagnitude decimalDigit? negative cs = some .nan := by
  rw [readMagnitude, ofList_map_eq.2 h]
  rfl

/-- What is no word is read as digits, a fraction and an exponent, one after the other. -/
theorem readMagnitude_number {whole : List Nat} {rest' : List Char} (hinf : cs.map Char.toLower ≠ "inf".toList)
    (hinfinity : cs.map Char.toLower ≠ "infinity".toList) (hnan : cs.map Char.toLower ≠ "nan".toList)
    (hwhole : digitRun decimalDigit? cs = (whole, rest)) (hfraction : readFraction rest = (fraction, rest')) :
    readMagnitude decimalDigit? negative cs = if whole ++ fraction = [] then none else
      (readExponent decimalDigit? rest').map fun power =>
        Binary64.ofDecimal negative (ofDigits (whole ++ fraction)) (power - fraction.length) := by
  have hmatch : readMagnitude decimalDigit? negative cs =
      if whole.isEmpty && (readFraction rest).1.isEmpty then none else
        (readExponent decimalDigit? (readFraction rest).2).map fun power =>
          Binary64.ofDecimal negative (ofDigits (whole ++ (readFraction rest).1)) (power - (readFraction rest).1.length) := by
    unfold readMagnitude
    rw [hwhole]
    split
    · exact absurd (ofList_map_eq.1 ‹_›) hinf
    · exact absurd (ofList_map_eq.1 ‹_›) hinfinity
    · exact absurd (ofList_map_eq.1 ‹_›) hnan
    · rfl
  rw [hmatch, hfraction]
  simp only [Bool.and_eq_true, List.isEmpty_iff, List.append_eq_nil_iff]

theorem MagnitudeText.of_readMagnitude (h : readMagnitude decimalDigit? negative cs = some x) : MagnitudeText negative cs x := by
  by_cases hinfinity : cs.map Char.toLower = "inf".toList ∨ cs.map Char.toLower = "infinity".toList
  · rw [readMagnitude_infinity hinfinity] at h
    cases h
    exact .infinity hinfinity
  by_cases hnan : cs.map Char.toLower = "nan".toList
  · rw [readMagnitude_nan hnan] at h
    cases h
    exact .nan hnan
  cases hwhole : digitRun decimalDigit? cs with
  | mk whole rest =>
    cases hfraction : readFraction rest with
    | mk fraction rest' =>
      rw [not_or] at hinfinity
      rw [readMagnitude_number hinfinity.1 hinfinity.2 hnan hwhole hfraction] at h
      split at h
      · cases h
      · rename_i hne
        obtain ⟨power, hpower, rfl⟩ := Option.map_eq_some_iff.1 h
        obtain ⟨front, rfl, hfront⟩ := exists_of_digitRun hwhole
        obtain ⟨point, hpoint, rfl⟩ := exists_of_readFraction hfraction
        exact .number hfront hpoint hne (readExponent_eq_some.1 hpower)

theorem readMagnitude_eq_some : readMagnitude decimalDigit? negative cs = some x ↔ MagnitudeText negative cs x := by
  refine ⟨.of_readMagnitude, ?_⟩
  rintro (h | h | ⟨hwhole, hpoint, hne, hexponent⟩)
  · exact readMagnitude_infinity h
  · exact readMagnitude_nan h
  · rename_i whole fraction power front point exponent
    obtain ⟨c, more, hcs, hc⟩ := exists_head_number exponent hwhole hpoint hne
    have hnot (word : List Char) (hword : word.head?.all isWordHead = true) :
        (front ++ (point ++ exponent)).map Char.toLower ≠ word := hcs ▸ map_toLower_ne hc hword
    rw [readMagnitude_number (hnot _ (by decide)) (hnot _ (by decide)) (hnot _ (by decide))
      (hwhole.digitRun_append (hpoint.stops hexponent)) (hpoint.readFraction_append hexponent), if_neg hne,
      readExponent_eq_some.2 hexponent, Option.map_some]

theorem isBlank_of_map_toLower {word : List Char} (h : cs.map Char.toLower = word) (hword : word.any isBlank = false) :
    ∀ c ∈ cs, isBlank c = false := by
  intro c hc
  rw [← isBlank_toLower]
  exact Bool.eq_false_iff.2 (List.any_eq_false.1 hword _ (h ▸ List.mem_map_of_mem hc))

theorem MagnitudeText.isBlank (h : MagnitudeText negative cs x) : ∀ c ∈ cs, ScriptTrace.isBlank c = false := by
  cases h with
  | infinity h => rcases h with h | h <;> exact isBlank_of_map_toLower h (by decide)
  | nan h => exact isBlank_of_map_toLower h (by decide)
  | number hwhole hpoint hne hexponent =>
    simp only [List.forall_mem_append]
    exact ⟨hwhole.isBlank, hpoint.isBlank, hexponent.isBlank⟩

/-- What a number begins with behind its sign is no sign. -/
theorem MagnitudeText.head (h : MagnitudeText negative cs x) : ∃ c more, cs = c :: more ∧ c ≠ '-' ∧ c ≠ '+' := by
  have hword {word : List Char} (h : cs.map Char.toLower = word) (hne : word ≠ []) (hminus : '-' ∉ word) (hplus : '+' ∉ word) :
      ∃ c more, cs = c :: more ∧ c ≠ '-' ∧ c ≠ '+' := by
    subst h
    cases cs with
    | nil => exact absurd rfl hne
    | cons c more =>
      refine ⟨c, more, rfl, ?_, ?_⟩ <;> rintro rfl
      · exact hminus List.mem_cons_self
      · exact hplus List.mem_cons_self
  cases h with
  | infinity h => rcases h with h | h <;> exact hword h (by decide) (by decide) (by decide)
  | nan h => exact hword h (by decide) (by decide) (by decide)
  | number hwhole hpoint hne hexponent =>
    obtain ⟨c, more, hcs, hc⟩ := exists_head_number _ hwhole hpoint hne
    refine ⟨c, more, hcs, ?_⟩
    rcases hc with ⟨d, hd⟩ | rfl
    · exact ⟨digit_ne hd (by decide), digit_ne hd (by decide)⟩
    · decide

end Decimals

/-! ## Texts of numbers -/

theorem readDecimal_eq_some {text : String} {x : Binary64} : readDecimal decimalDigit? text = some x ↔ DecimalText text x := by
  constructor
  · intro h
    unfold readDecimal readNumber at h
    cases hsign : readSign (trimChars isWhiteSpace text.toList) with
    | mk negative cs =>
      rw [hsign] at h
      obtain ⟨sign, hsign, hcs⟩ := exists_of_readSign hsign
      exact .intro (hcs ▸ surrounds_trimChars _) hsign (readMagnitude_eq_some.1 h)
  · rintro ⟨htext, hsign, hmagnitude⟩
    rename_i negative sign cs
    obtain ⟨c, more, rfl, hminus, hplus⟩ := hmagnitude.head
    have htrim := htext.trimChars_eq (by simp) fun c hc => (List.mem_append.1 hc).elim (hsign.isBlank c) (hmagnitude.isBlank c)
    have hstops : ∀ e ∈ (c :: more).head?, e ≠ '-' ∧ e ≠ '+' := by
      rintro _ ⟨⟩
      exact ⟨hminus, hplus⟩
    have hread := hsign.readSign_append hstops
    simp only [readDecimal, readNumber, htrim, hread]
    exact readMagnitude_eq_some.2 hmagnitude

section Blank

variable {text : String}

theorem not_isBlankText {inner : List Char} (h : Surrounds text.toList inner) (hne : inner ≠ [])
    (hinner : ∀ c ∈ inner, isBlank c = false) : ¬ IsBlankText text := by
  obtain ⟨before, after, htext, -, -⟩ := h
  obtain ⟨c, more, rfl⟩ := List.exists_cons_of_ne_nil hne
  intro hblank
  have hc := hblank c (by simp [htext])
  rw [hinner c List.mem_cons_self] at hc
  cases hc

/-- Space alone is no number. -/
theorem IntegerText.not_blank {n : Int} (h : IntegerText text n) : ¬ IsBlankText text := by
  obtain ⟨htext, hsign, hdigits, hne, -⟩ := h
  obtain ⟨c, d, more, rfl, -⟩ := hdigits.head hne
  exact not_isBlankText htext (by simp) fun c hc => (List.mem_append.1 hc).elim (hsign.isBlank c) (hdigits.isBlank c)

theorem DecimalText.not_blank {x : Binary64} (h : DecimalText text x) : ¬ IsBlankText text := by
  obtain ⟨htext, hsign, hmagnitude⟩ := h
  obtain ⟨c, more, rfl, -, -⟩ := hmagnitude.head
  exact not_isBlankText htext (by simp) fun c hc => (List.mem_append.1 hc).elim (hsign.isBlank c) (hmagnitude.isBlank c)

end Blank

/-! ## No number -/

namespace Binary64

theorem ofRatio_ne_nan (negative : Bool) (num den : Nat) : ofRatio negative num den ≠ .nan := by
  unfold ofRatio zero
  dsimp only
  split_ifs <;> exact Binary64.noConfusion

theorem ofDecimal_ne_nan (negative : Bool) (digits : Nat) (exponent : Int) : ofDecimal negative digits exponent ≠ .nan := by
  unfold ofDecimal zero
  dsimp only
  split_ifs
  · exact Binary64.noConfusion
  · exact Binary64.noConfusion
  · exact Binary64.noConfusion
  · exact ofRatio_ne_nan _ _ _
  · exact ofRatio_ne_nan _ _ _

end Binary64

/-- The word for no number, in letters of either case, with a sign or without. -/
def NoNumberText (text : String) : Prop :=
  ∃ negative sign word, Surrounds text.toList (sign ++ word) ∧ SignText negative sign ∧ word.map Char.toLower = "nan".toList

theorem decimalText_nan {text : String} : DecimalText text .nan ↔ NoNumberText text := by
  constructor
  · rintro ⟨htext, hsign, hmagnitude⟩
    refine ⟨_, _, _, htext, hsign, ?_⟩
    generalize hx : Binary64.nan = x at hmagnitude
    cases hmagnitude with
    | infinity => cases hx
    | nan h => exact h
    | number => exact absurd hx.symm (Binary64.ofDecimal_ne_nan _ _ _)
  · rintro ⟨negative, sign, word, htext, hsign, hword⟩
    exact .intro htext hsign (.nan hword)

end ScriptTrace
