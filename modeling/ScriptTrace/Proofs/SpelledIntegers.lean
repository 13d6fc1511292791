import ScriptTrace.Number.Lenient
import ScriptTrace.Proofs.WrittenNumbers

/-!
# How integers may be spelled

A record may spell an integer with white space around it, a sign, zeros in front, single underscores between its digits
and a fraction of zeros. Whatever of this is made use of, the integer that is read is the one that the digits stand for,
as long as there are not too many of them.

* `unpadded` : digits without zeros in front;
* `AsciiDigits` : digits with underscores between them;
* `plainMagnitude_append`, `plainMagnitude_unpadded` : digits that are read as they stand;
* `withoutLeadingZeros_digits`, `withoutZeroFraction_append`, `ungrouped_digits` : what each step of cleaning leaves;
* `SpelledInteger` : the spellings of an integer;
* `plainInteger_spelled`, `cleaned_spelled` : a spelling as it stands, and once it is cleaned;
* `lenientInteger_spelled` : every spelling is read as its integer.
-/

namespace ScriptTrace

/-! ## Digits -/

/-- Digits without zeros in front; one zero if there is no other digit. -/
def unpadded : List Nat → List Nat
  | [] => [0]
  | d :: ds => if d = 0 then unpadded ds else d :: ds

section Unpadded

variable {d : Nat} {ds : List Nat}

@[simp] theorem unpadded_zero (ds : List Nat) : unpadded (0 :: ds) = unpadded ds := by simp [unpadded]

theorem unpadded_of_ne (h : d ≠ 0) : unpadded (d :: ds) = d :: ds := by simp [unpadded, h]

theorem unpadded_cases (ds : List Nat) : unpadded ds = [0] ∨ ∃ d more, d ≠ 0 ∧ unpadded ds = d :: more := by
  induction ds with
  | nil => exact .inl rfl
  | cons d ds ih =>
    by_cases h : d = 0
    · rwa [h, unpadded_zero]
    · exact .inr ⟨d, ds, h, unpadded_of_ne h⟩

theorem unpadded_ne_nil (ds : List Nat) : unpadded ds ≠ [] := by
  rcases unpadded_cases ds with h | ⟨d, more, -, h⟩ <;> rw [h] <;> exact List.cons_ne_nil _ _

theorem mem_unpadded (h : d ∈ unpadded ds) : d = 0 ∨ d ∈ ds := by
  induction ds with
  | nil => exact .inl (List.mem_singleton.1 h)
  | cons e ds ih =>
    by_cases he : e = 0
    · rw [he, unpadded_zero] at h
      exact (ih h).imp_right (List.mem_cons_of_mem e)
    · rw [unpadded_of_ne he] at h
      exact .inr h

theorem ofDigits_unpadded (ds : List Nat) : ofDigits (unpadded ds) = ofDigits ds := by
  induction ds with
  | nil => rfl
  | cons d ds ih =>
    by_cases h : d = 0
    · rw [h, unpadded_zero, ih]
      rfl
    · rw [unpadded_of_ne h]

end Unpadded

/-- Digits from zero to nine, with single underscores between some of them. -/
inductive AsciiDigits : List Nat → List Char → Prop
  | nil : AsciiDigits [] []
  | digit {d : Nat} {ds : List Nat} {cs : List Char} : d < 10 → AsciiDigits ds cs →
      AsciiDigits (d :: ds) (Nat.digitChar d :: cs)
  | grouped {d : Nat} {ds : List Nat} {cs : List Char} : d < 10 → ds ≠ [] → AsciiDigits ds cs →
      AsciiDigits (d :: ds) (Nat.digitChar d :: '_' :: cs)

section DigitChars

variable {d : Nat} (hd : d < 10)

include hd

theorem decimalDigit?_digitChar : decimalDigit? (Nat.digitChar d) = some d := by
  revert d
  decide +kernel

theorem asciiDigit?_digitChar : asciiDigit? (Nat.digitChar d) = some d := by
  revert d
  decide

theorem digitChar_zero_iff : Nat.digitChar d = '0' ↔ d = 0 := by
  revert d
  decide

/-- The digits other than zero can be told by their order. -/
theorem digitChar_between : ('1' ≤ Nat.digitChar d ∧ Nat.digitChar d ≤ '9') ↔ d ≠ 0 := by
  revert d
  decide

/-- A digit is none of the other characters of an integer. -/
theorem digitChar_ne : Nat.digitChar d ≠ '-' ∧ Nat.digitChar d ≠ '+' ∧ Nat.digitChar d ≠ '_' ∧ Nat.digitChar d ≠ '.' := by
  revert d
  decide

end DigitChars

/-- A text does not go on with a digit. -/
def StopsAscii (rest : List Char) : Prop := ∀ c ∈ rest.head?, asciiDigit? c = none

namespace AsciiDigits

variable {ds : List Nat} {cs rest : List Char}

/-- They are digits among those of all scripts. -/
theorem digitText (h : AsciiDigits ds cs) : DigitText ds cs := by
  induction h with
  | nil => exact .nil
  | digit hd _ ih => exact .digit (decimalDigit?_digitChar hd) ih
  | grouped hd hne _ ih => exact .grouped (decimalDigit?_digitChar hd) hne ih

theorem exists_head (h : AsciiDigits ds cs) (hne : ds ≠ []) :
    ∃ d ds' more, d < 10 ∧ ds = d :: ds' ∧ cs = Nat.digitChar d :: more := by
  cases h with
  | nil => exact absurd rfl hne
  | digit hd | grouped hd => exact ⟨_, _, _, hd, rfl, rfl⟩

/-- What begins with digits has no sign in front. -/
theorem head_append (h : AsciiDigits ds cs) (hne : ds ≠ []) (rest : List Char) : ∀ c ∈ (cs ++ rest).head?, c ≠ '-' ∧ c ≠ '+' := by
  obtain ⟨d, ds', more, hd, -, rfl⟩ := h.exists_head hne
  rintro _ ⟨⟩
  exact ⟨(digitChar_ne hd).1, (digitChar_ne hd).2.1⟩

theorem filterMap (h : AsciiDigits ds cs) : cs.filterMap asciiDigit? = ds := by
  have hunderscore : asciiDigit? '_' = none := by decide
  induction h with
  | nil => rfl
  | digit hd _ ih => rw [List.filterMap_cons_some (asciiDigit?_digitChar hd), ih]
  | grouped hd _ _ ih =>
    rw [List.filterMap_cons_some (asciiDigit?_digitChar hd), List.filterMap_cons_none hunderscore, ih]

/-- Without the underscores there is one character for each digit. -/
theorem withoutUnderscores (h : AsciiDigits ds cs) : withoutUnderscores cs = ds.map Nat.digitChar := by
  induction h with
  | nil => rfl
  | digit hd _ ih => simpa [ScriptTrace.withoutUnderscores, (digitChar_ne hd).2.2.1] using ih
  | grouped hd _ _ ih => simpa [ScriptTrace.withoutUnderscores, (digitChar_ne hd).2.2.1] using ih

theorem of_map (h : ∀ d ∈ ds, d < 10) : AsciiDigits ds (ds.map Nat.digitChar) := by
  induction ds with
  | nil => exact .nil
  | cons d ds ih =>
    obtain ⟨hd, hds⟩ := List.forall_mem_cons.1 h
    exact .digit hd (ih hds)

theorem lt_ten (h : AsciiDigits ds cs) : ∀ d ∈ ds, d < 10 := by
  induction h with
  | nil => nofun
  | digit hd _ ih | grouped hd _ _ ih => exact List.forall_mem_cons.2 ⟨hd, ih⟩

/-- No more digits are taken from the front than there are. -/
theorem takeWhile_append (h : AsciiDigits ds cs) (hrest : StopsAscii rest) :
    ((cs ++ rest).takeWhile fun c => (asciiDigit? c).isSome).length ≤ ds.length := by
  induction h with
  | nil =>
    cases rest with
    | nil => exact Nat.le_refl 0
    | cons c rest => simp [hrest c rfl]
  | digit hd _ ih => simpa [asciiDigit?_digitChar hd] using ih
  | grouped hd _ _ _ =>
    have hunderscore : asciiDigit? '_' = none := by decide
    simp [asciiDigit?_digitChar hd, hunderscore]

end AsciiDigits

/-! ## Texts that are read as they stand -/

section Plain

variable {negative : Bool} {ds : List Nat} {cs rest : List Char}

/-- How many characters so many digits take with a minus sign in front, if there is one. -/
def writtenSize (negative : Bool) (digits : Nat) : Nat := if negative then digits + 1 else digits

theorem writtenSize_mono {m n : Nat} (h : m ≤ n) : writtenSize negative m ≤ writtenSize negative n := by
  cases negative with
  | false => exact h
  | true => exact Nat.succ_le_succ h

/-- Digits in front of a text are no integer if anything else follows them. -/
theorem digitsToInteger_append (h : AsciiDigits ds cs) (hrest : StopsAscii rest)
    (hsize : writtenSize negative ds.length ≤ maxDigits) :
    digitsToInteger negative (cs ++ rest) = .ok (signed negative (ofDigits ds)) ∨
      digitsToInteger negative (cs ++ rest) = .error .unreadable := by
  have htaken := (writtenSize_mono (h.takeWhile_append hrest)).trans hsize
  unfold writtenSize at htaken
  unfold digitsToInteger
  dsimp only
  rw [if_neg (Nat.not_lt.2 htaken)]
  split
  -- Nothing but digits was found, so nothing follows them, and no underscore stands between them.
  · rename_i hall
    have htake := List.IsPrefix.eq_of_length (List.takeWhile_prefix _) hall
    rw [htake]
    cases rest with
    | nil => rw [List.append_nil, h.filterMap]; exact .inl rfl
    | cons c rest =>
      have hc := List.takeWhile_eq_self_iff.1 htake c (by simp)
      rw [hrest c rfl] at hc
      cases hc
  · exact .inr rfl

theorem digitsToInteger_digits (hds : ∀ d ∈ ds, d < 10) (hsize : writtenSize negative ds.length ≤ maxDigits) :
    digitsToInteger negative (ds.map Nat.digitChar) = .ok (signed negative (ofDigits ds)) := by
  have htake : (ds.map Nat.digitChar).takeWhile (fun c => (asciiDigit? c).isSome) = ds.map Nat.digitChar := by
    refine List.takeWhile_eq_self_iff.2 (List.forall_mem_map.2 fun d hd => ?_)
    rw [asciiDigit?_digitChar (hds d hd)]
    rfl
  unfold writtenSize at hsize
  unfold digitsToInteger
  dsimp only
  rw [htake, List.length_map, if_neg (Nat.not_lt.2 hsize), if_pos rfl, (AsciiDigits.of_map hds).filterMap]

/-- A number without its sign: its digits are read, or it cannot be read as it stands. -/
theorem plainMagnitude_append (h : AsciiDigits ds cs) (hne : ds ≠ []) (hrest : StopsAscii rest)
    (hsize : writtenSize negative (unpadded ds).length ≤ maxDigits) :
    plainMagnitude negative (cs ++ rest) = .ok (signed negative (ofDigits ds)) ∨
      plainMagnitude negative (cs ++ rest) = .error .unreadable := by
  obtain ⟨d, ds', more, hd, rfl, rfl⟩ := h.exists_head hne
  unfold plainMagnitude
  split
  · rename_i hzero
    obtain ⟨hhead, hmore⟩ := List.cons.inj hzero
    obtain rfl := (digitChar_zero_iff hd).1 hhead
    obtain ⟨rfl, rfl⟩ := List.append_eq_nil_iff.1 hmore
    cases h with
    | digit _ h =>
      cases h
      left
      cases negative <;> rfl
  · rename_i c _ _ hcons
    obtain ⟨rfl, -⟩ := List.cons.inj hcons
    split
    · rename_i hrange
      rw [unpadded_of_ne ((digitChar_between hd).1 hrange)] at hsize
      exact digitsToInteger_append h hrest hsize
    · exact .inr rfl
  · exact .inr rfl

/-- Digits without zeros in front are read as they stand. -/
theorem plainMagnitude_unpadded (hds : ∀ d ∈ unpadded ds, d < 10)
    (hsize : writtenSize negative (unpadded ds).length ≤ maxDigits) :
    plainMagnitude negative ((unpadded ds).map Nat.digitChar) = .ok (signed negative (ofDigits ds)) := by
  rw [← ofDigits_unpadded ds]
  rcases unpadded_cases ds with h | ⟨d, more, hne, h⟩ <;> rw [h] at hds hsize ⊢
  · cases negative <;> rfl
  · have hd := hds d List.mem_cons_self
    rw [← digitsToInteger_digits hds hsize, List.map_cons, plainMagnitude, if_pos ((digitChar_between hd).2 hne)]
    rintro h
    exact absurd ((digitChar_zero_iff hd).1 h) hne

end Plain

/-! ## Cleaning -/

section Cleaning

variable {d : Nat} {ds : List Nat} {cs point rest : List Char}

theorem afterZeros_of_ne (hd : d < 10) (hne : d ≠ 0) (last : Char) (cs : List Char) :
    afterZeros last (Nat.digitChar d :: cs) = some (Nat.digitChar d :: cs) := by
  obtain ⟨-, -, hunderscore, hpoint⟩ := digitChar_ne hd
  have hstarts : startsInteger (Nat.digitChar d) = true := by simp [startsInteger, (digitChar_between hd).2 hne]
  rw [afterZeros, if_neg (not_or.2 ⟨mt (digitChar_zero_iff hd).1 hne, hunderscore⟩), if_neg hpoint, if_pos hstarts]

/-- Behind a zero, the zeros in front of digits are left out up to a point, together with the underscores between them. -/
theorem afterZeros_digits (h : AsciiDigits ds cs) (hpoint : ∀ c ∈ point.head?, c = '.') (last : Char)
    (hlast : ds = [] → last = '0') :
    ∃ front, afterZeros last (cs ++ point) = some (front ++ point) ∧ AsciiDigits (unpadded ds) front := by
  induction h generalizing last with
  | nil =>
    obtain rfl := hlast rfl
    refine ⟨['0'], ?_, .digit (by decide) .nil⟩
    cases point with
    | nil => rfl
    | cons c point =>
      obtain rfl := hpoint c rfl
      rfl
  | @digit d ds cs hd h ih =>
    by_cases hzero : d = 0
    · subst hzero
      rw [unpadded_zero]
      exact ih '0' fun _ => rfl
    · rw [unpadded_of_ne hzero]
      exact ⟨Nat.digitChar d :: cs, afterZeros_of_ne hd hzero last (cs ++ point), .digit hd h⟩
  | @grouped d ds cs hd hne h ih =>
    by_cases hzero : d = 0
    · subst hzero
      rw [unpadded_zero]
      exact ih '_' fun hnil => absurd hnil hne
    · rw [unpadded_of_ne hzero]
      exact ⟨Nat.digitChar d :: '_' :: cs, afterZeros_of_ne hd hzero last ('_' :: (cs ++ point)), .grouped hd hne h⟩

theorem withoutLeadingZeros_digits (h : AsciiDigits ds cs) (hne : ds ≠ []) (hpoint : ∀ c ∈ point.head?, c = '.') :
    ∃ front, withoutLeadingZeros (cs ++ point) = some (front ++ point) ∧ AsciiDigits (unpadded ds) front := by
  obtain ⟨front, hafter, hfront⟩ := afterZeros_digits h hpoint '0' fun _ => rfl
  refine ⟨front, ?_, hfront⟩
  obtain ⟨d, ds', more, hd, rfl, rfl⟩ := h.exists_head hne
  rw [← hafter, List.cons_append]
  by_cases hzero : d = 0
  · subst hzero
    rfl
  · rw [afterZeros_of_ne hd hzero, withoutLeadingZeros, if_neg (digitChar_ne hd).1, if_neg (mt (digitChar_zero_iff hd).1 hzero),
      if_pos ((digitChar_between hd).2 hzero)]

/-- A fraction of zeros, or none. -/
inductive ZeroFraction : List Char → Prop
  | absent : ZeroFraction []
  | zeros (k : Nat) : ZeroFraction ('.' :: List.replicate (k + 1) '0')

theorem ZeroFraction.head (h : ZeroFraction point) : ∀ c ∈ point.head?, c = '.' := by
  cases h with
  | absent => nofun
  | zeros =>
    rintro _ ⟨⟩
    rfl

theorem withoutZeroFraction_append (hpoint : ZeroFraction point) (hcs : '.' ∉ cs) : withoutZeroFraction (cs ++ point) = cs := by
  unfold withoutZeroFraction
  cases hpoint with
  | absent =>
    rw [List.append_nil]
    dsimp only
    split
    · rename_i whole _ hdrop
      have hmem : '.' ∈ cs.reverse := (List.dropWhile_suffix _).subset (hdrop ▸ List.mem_cons_self)
      exact absurd (List.mem_reverse.1 hmem) hcs
    · rfl
  | zeros k =>
    have hreverse : (cs ++ '.' :: List.replicate (k + 1) '0').reverse = List.replicate (k + 1) '0' ++ '.' :: cs.reverse := by simp
    have hdrop : (List.replicate (k + 1) '0' ++ '.' :: cs.reverse).dropWhile (· == '0') = '.' :: cs.reverse := by
      rw [List.dropWhile_append_of_pos fun c hc => by rw [List.eq_of_mem_replicate hc]; rfl]
      rfl
    dsimp only
    rw [hreverse, hdrop, List.replicate_succ]
    exact List.reverse_reverse cs

theorem hasDoubleUnderscore_cons {c : Char} (h : c = '_' → ∀ d ∈ cs.head?, d ≠ '_') :
    hasDoubleUnderscore (c :: cs) = hasDoubleUnderscore cs := by
  rw [hasDoubleUnderscore]
  rintro rest rfl rfl
  exact h rfl '_' rfl rfl

theorem AsciiDigits.head_ne (h : AsciiDigits ds cs) : ∀ c ∈ cs.head?, c ≠ '_' := by
  cases h with
  | nil => nofun
  | digit hd | grouped hd =>
    rintro _ ⟨⟩
    exact (digitChar_ne hd).2.2.1

theorem AsciiDigits.not_mem_point (h : AsciiDigits ds cs) : '.' ∉ cs := by
  induction h with
  | nil => nofun
  | digit hd _ ih => exact List.not_mem_cons_of_ne_of_not_mem (digitChar_ne hd).2.2.2.symm ih
  | grouped hd _ _ ih =>
    have hunderscore := List.not_mem_cons_of_ne_of_not_mem (show '.' ≠ '_' by decide) ih
    exact List.not_mem_cons_of_ne_of_not_mem (digitChar_ne hd).2.2.2.symm hunderscore

theorem AsciiDigits.hasDoubleUnderscore (h : AsciiDigits ds cs) : hasDoubleUnderscore cs = false := by
  induction h with
  | nil => rfl
  | digit hd _ ih => rwa [hasDoubleUnderscore_cons fun h => absurd h (digitChar_ne hd).2.2.1]
  | grouped hd _ h ih =>
    rwa [hasDoubleUnderscore_cons fun h => absurd h (digitChar_ne hd).2.2.1, hasDoubleUnderscore_cons fun _ => h.head_ne]

theorem AsciiDigits.last_ne (h : AsciiDigits ds cs) : ∀ c ∈ cs.getLast?, c ≠ '_' := by
  induction h with
  | nil => nofun
  | @digit d ds cs hd h ih =>
    rw [List.getLast?_cons]
    rintro _ ⟨⟩
    cases hlast : cs.getLast? with
    | none => exact (digitChar_ne hd).2.2.1
    | some c => exact ih c hlast
  | @grouped d ds cs hd hne h ih =>
    obtain ⟨d', ds', more, -, -, rfl⟩ := h.exists_head hne
    rwa [List.getLast?_cons_cons, List.getLast?_cons_cons]

/-- A minus sign, or nothing. -/
def minusSign (negative : Bool) : List Char := if negative then ['-'] else []

/-- Only the digits remain. -/
theorem ungrouped_digits (h : AsciiDigits ds cs) (hne : ds ≠ []) (negative : Bool) :
    ungrouped (minusSign negative ++ cs) = minusSign negative ++ ds.map Nat.digitChar := by
  obtain ⟨d, ds', more, hd, rfl, rfl⟩ := h.exists_head hne
  have hhead : some (Nat.digitChar d) ≠ some '_' := fun h => (digitChar_ne hd).2.2.1 (Option.some.inj h)
  have hlast : (Nat.digitChar d :: more).getLast? ≠ some '_' := fun hlast => h.last_ne _ hlast rfl
  have hwithout := h.withoutUnderscores
  unfold withoutUnderscores at hwithout
  cases negative with
  | false =>
    have hgrouped : isGrouped (Nat.digitChar d :: more) = true := by
      simp [isGrouped, hhead, hlast, h.hasDoubleUnderscore]
    change ungrouped (Nat.digitChar d :: more) = _
    rw [ungrouped, if_pos hgrouped, withoutUnderscores, hwithout]
    rfl
  | true =>
    have hgrouped : isGrouped ('-' :: Nat.digitChar d :: more) = true := by
      simp [isGrouped, hlast, hasDoubleUnderscore_cons (c := '-') nofun, h.hasDoubleUnderscore]
    change ungrouped ('-' :: Nat.digitChar d :: more) = _
    rw [ungrouped, if_pos hgrouped, withoutUnderscores, List.filter_cons_of_pos (by decide), hwithout]
    rfl

end Cleaning

/-! ## Spellings -/

/-- An integer: a sign, digits and a fraction of zeros, with white space around them. Zeros in front do not count
towards its size. -/
inductive SpelledInteger (text : String) : Int → Prop
  | intro {negative : Bool} {sign cs point : List Char} {ds : List Nat} : Surrounds text.toList (sign ++ (cs ++ point)) →
      SignText negative sign → AsciiDigits ds cs → ds ≠ [] → ZeroFraction point →
      writtenSize negative (unpadded ds).length ≤ maxDigits → SpelledInteger text (signed negative (ofDigits ds))

section Spellings

variable {negative : Bool} {ds : List Nat} {sign cs point rest text : List Char}

theorem asciiDigit?_of_isWhiteSpace {c : Char} (h : isWhiteSpace c = true) : asciiDigit? c = none := by
  simp only [isWhiteSpace, whiteSpace, CharTable.contains, List.any_cons, List.any_nil, Bool.or_false, Bool.or_eq_true,
    Bool.and_eq_true, decide_eq_true_eq] at h
  refine if_neg ?_
  rintro ⟨hlow, hhigh⟩
  have hlow : 48 ≤ c.toNat := hlow
  have hhigh : c.toNat ≤ 57 := hhigh
  omega

theorem ZeroFraction.stops (h : ZeroFraction point) (hrest : ∀ c ∈ rest, isWhiteSpace c = true) : StopsAscii (point ++ rest) := by
  cases h with
  | absent =>
    intro c hc
    exact asciiDigit?_of_isWhiteSpace (hrest c (List.mem_of_mem_head? hc))
  | zeros =>
    rintro _ ⟨⟩
    decide

theorem ZeroFraction.isBlank (h : ZeroFraction point) : ∀ c ∈ point, isBlank c = false := by
  cases h with
  | absent => nofun
  | zeros k =>
    refine List.forall_mem_cons.2 ⟨by decide, fun c hc => ?_⟩
    rw [List.eq_of_mem_replicate hc]
    decide

/-- What does not begin with a digit is no number as it stands. -/
theorem plainMagnitude_stops (negative : Bool) (h : StopsAscii rest) : plainMagnitude negative rest = .error .unreadable := by
  unfold plainMagnitude
  split
  · cases h '0' rfl
  · rename_i c _ _
    have hc := h c rfl
    refine if_neg ?_
    rintro ⟨hlow, hhigh⟩
    have hlow : '0' ≤ c := Char.le_trans (by decide) hlow
    rw [asciiDigit?, if_pos ⟨hlow, hhigh⟩] at hc
    cases hc
  · rfl

theorem plainInteger_append (negative : Bool) (h : ∀ c ∈ rest.head?, c ≠ '-') :
    plainInteger (minusSign negative ++ rest) = plainMagnitude negative rest := by
  cases negative with
  | true => rfl
  | false =>
    change plainInteger rest = _
    rw [plainInteger]
    rintro more rfl
    exact h '-' rfl rfl

theorem withoutPlus_sign (hsign : SignText negative sign) (hrest : ∀ c ∈ rest.head?, c ≠ '-' ∧ c ≠ '+') :
    withoutPlus (sign ++ rest) = some (minusSign negative ++ rest) := by
  cases hsign with
  | minus => rfl
  | plus =>
    change withoutPlus ('+' :: rest) = some rest
    rw [withoutPlus]
    rintro more rfl
    exact (hrest '-' rfl).1 rfl
  | absent =>
    change withoutPlus rest = some rest
    rw [withoutPlus]
    · rintro more rfl
      exact (hrest '+' rfl).2 rfl
    · rintro more rfl
      exact (hrest '+' rfl).2 rfl

/-- As it stands, a spelling is read as its integer or cannot be read. -/
theorem plainInteger_spelled (htext : Surrounds text (sign ++ (cs ++ point))) (hsign : SignText negative sign)
    (hdigits : AsciiDigits ds cs) (hne : ds ≠ []) (hpoint : ZeroFraction point)
    (hsize : writtenSize negative (unpadded ds).length ≤ maxDigits) :
    plainInteger text = .ok (signed negative (ofDigits ds)) ∨ plainInteger text = .error .unreadable := by
  obtain ⟨before, after, rfl, hbefore, hafter⟩ := htext
  cases before with
  | cons c before =>
    have hc := hbefore c List.mem_cons_self
    have hstops : StopsAscii (c :: before ++ (sign ++ (cs ++ point) ++ after)) := by
      rintro _ ⟨⟩
      exact asciiDigit?_of_isWhiteSpace hc
    have hminus : c ≠ '-' := by
      rintro rfl
      cases hc
    right
    rw [← plainMagnitude_stops false hstops]
    exact plainInteger_append false (by rintro _ ⟨⟩; exact hminus)
  | nil =>
    have hhead := hdigits.head_append hne (point ++ after)
    have hplain := plainMagnitude_append hdigits hne (hpoint.stops hafter) hsize
    rw [← plainInteger_append negative fun c hc => (hhead c hc).1] at hplain
    rw [List.nil_append, List.append_assoc, List.append_assoc]
    cases hsign with
    | absent | minus => exact hplain
    | plus =>
      have hstops : StopsAscii ('+' :: (cs ++ (point ++ after))) := by
        rintro _ ⟨⟩
        decide
      exact .inr (plainMagnitude_stops false hstops)

/-- Of a spelling, cleaning leaves a minus sign and the digits from the first one on that counts. -/
theorem cleaned_spelled (htext : Surrounds text (sign ++ (cs ++ point))) (hsign : SignText negative sign)
    (hdigits : AsciiDigits ds cs) (hne : ds ≠ []) (hpoint : ZeroFraction point) :
    cleaned text = some (minusSign negative ++ (unpadded ds).map Nat.digitChar) := by
  have htrim : trimChars isWhiteSpace text = sign ++ (cs ++ point) := by
    obtain ⟨d, ds', more, -, -, rfl⟩ := hdigits.exists_head hne
    refine htext.trimChars_eq (by simp) ?_
    simp only [List.forall_mem_append]
    exact ⟨hsign.isBlank, hdigits.digitText.isBlank, hpoint.isBlank⟩
  have hplus := withoutPlus_sign hsign (hdigits.head_append hne point)
  obtain ⟨front, hzeros, hfront⟩ := withoutLeadingZeros_digits hdigits hne hpoint.head
  have hsigned : withoutLeadingZeros (minusSign negative ++ (cs ++ point)) = some (minusSign negative ++ (front ++ point)) := by
    cases negative with
    | false => exact hzeros
    | true =>
      change (withoutLeadingZeros (cs ++ point)).map ('-' :: ·) = _
      rw [hzeros]
      rfl
  have hfraction : withoutZeroFraction (minusSign negative ++ (front ++ point)) = minusSign negative ++ front := by
    rw [← List.append_assoc]
    refine withoutZeroFraction_append hpoint fun hmem => ?_
    rcases List.mem_append.1 hmem with hmem | hmem
    · cases negative with
      | false => cases hmem
      | true => cases List.mem_singleton.1 hmem
    · exact hfront.not_mem_point hmem
  rw [cleaned, htrim, hplus]
  change (withoutLeadingZeros _).bind _ = _
  rw [hsigned]
  change some (ungrouped (withoutZeroFraction _)) = _
  rw [hfraction, ungrouped_digits hfront (unpadded_ne_nil ds)]

end Spellings

/-- Every spelling of an integer is read as this integer. -/
theorem lenientInteger_spelled {s : String} {n : Int} (h : SpelledInteger s n) : lenientInteger s = .ok n := by
  obtain ⟨htext, hsign, hdigits, hne, hpoint, hsize⟩ := h
  rename_i negative sign cs point ds
  have hcleaned := cleaned_spelled htext hsign hdigits hne hpoint
  have hunpadded : ∀ d ∈ unpadded ds, d < 10 := by
    intro d hd
    rcases mem_unpadded hd with rfl | hd
    · decide
    · exact hdigits.lt_ten d hd
  have hread : plainInteger (minusSign negative ++ (unpadded ds).map Nat.digitChar) = .ok (signed negative (ofDigits ds)) := by
    have hhead := (AsciiDigits.of_map hunpadded).head_append (unpadded_ne_nil ds) []
    rw [List.append_nil] at hhead
    rw [plainInteger_append negative fun c hc => (hhead c hc).1, plainMagnitude_unpadded hunpadded hsize]
  unfold lenientInteger
  -- A text is cleaned only if it cannot be read as it stands.
  rcases plainInteger_spelled htext hsign hdigits hne hpoint hsize with hplain | hplain
  · rw [hplain]
  · rw [hplain]
    dsimp only
    rw [hcleaned]
    exact hread

example : lenientInteger "-0_07.0" = .ok (-7) := by decide +kernel

end ScriptTrace
