import Mathlib.Data.List.Forall2
import ScriptTrace.Proofs.WrittenNumbers
import ScriptTrace.Sandbox.Settings

/-!
# What environment variables can configure

Whatever the variables hold, the limits of a run are positive, and there are origins to allow. A number that is not
there, cannot be read or is not positive gives way to the default. The word for no number passes as a time limit: it
is not positive, and not the other way round either.

* `Sets` : the number that a variable sets, or the default;
* `IsPartsOf`, `commaParts_eq` : the parts of a text between commas;
* `Lists`, `lists_originsOr` : the origins that a text lists, or every origin;
* `Settings.Sound`, `Settings.sound_ofEnvironment` : the settings of any environment;
* `timeLimit_nan` : a time limit that is no number.
-/

namespace ScriptTrace

/-! ## Numbers -/

/-- Greater than zero; what is no number is not. -/
def Binary64.IsPositive : Binary64 → Prop
  | .finite negative significand _ => negative = false ∧ significand ≠ 0
  | .infinite negative => negative = false
  | .nan => False

instance : DecidablePred Binary64.IsPositive
  | .finite negative significand _ => inferInstanceAs (Decidable (negative = false ∧ significand ≠ 0))
  | .infinite negative => inferInstanceAs (Decidable (negative = false))
  | .nan => inferInstanceAs (Decidable False)

/-- The comparison with zero that is made is false of no number too. -/
theorem Binary64.isNonPositive_eq_false {x : Binary64} : x.isNonPositive = false ↔ x.IsPositive ∨ x = .nan := by
  cases x <;> simp [isNonPositive, IsPositive]

/-- The number that a variable sets: the one its text means, if that fits, and the default otherwise. -/
structure Sets {α : Type} (means : String → α → Prop) (fits : α → Prop) (raw : Option String) (default value : α) : Prop where
  unset : raw = none → value = default
  blank : ∀ text, raw = some text → IsBlankText text → value = default
  unreadable : ∀ text, raw = some text → (∀ x, ¬ means text x) → value = default
  unfit : ∀ text x, raw = some text → means text x → ¬ fits x → value = default
  given : ∀ text x, raw = some text → means text x → fits x → value = x

section Sets

variable {α : Type} {means : String → α → Prop} {fits : α → Prop} {read : String → Option α} {nonPositive : α → Bool}
  {raw : Option String} {default value : α}

theorem sets_positiveOr (hread : ∀ text x, read text = some x ↔ means text x) (hblank : ∀ text x, means text x → ¬ IsBlankText text)
    (hfits : ∀ x, nonPositive x = false ↔ fits x) (default : α) (raw : Option String) :
    Sets means fits raw default (Settings.positiveOr default read nonPositive raw) := by
  have hnone {text : String} (h : ∀ x, ¬ means text x) : Settings.positiveOr default read nonPositive (some text) = default := by
    have hread' : read text = none := Option.eq_none_iff_forall_ne_some.2 fun x hx => h x ((hread text x).1 hx)
    rw [Settings.positiveOr, Option.bind_some, hread']
  refine ⟨?_, ?_, ?_, ?_, ?_⟩
  · rintro rfl
    rfl
  · rintro text rfl htext
    exact hnone fun x hx => hblank text x hx htext
  · rintro text rfl h
    exact hnone h
  · rintro text x rfl hx hfit
    have hnot : nonPositive x = true := by rwa [← hfits, Bool.not_eq_false] at hfit
    rw [Settings.positiveOr, Option.bind_some, (hread text x).2 hx]
    exact if_pos hnot
  · rintro text x rfl hx hfit
    rw [Settings.positiveOr, Option.bind_some, (hread text x).2 hx]
    exact if_neg (by simp [(hfits x).2 hfit])

/-- A number that is not the default is the one that the variable's text means. -/
theorem Sets.eq_default_or (h : Sets means fits raw default value) :
    value = default ∨ fits value ∧ ∃ text, raw = some text ∧ means text value := by
  cases raw with
  | none => exact .inl (h.unset rfl)
  | some text =>
    by_cases hmeans : ∃ x, means text x
    · obtain ⟨x, hx⟩ := hmeans
      by_cases hfit : fits x
      · have hvalue := h.given text x rfl hx hfit
        exact .inr ⟨hvalue ▸ hfit, text, rfl, hvalue ▸ hx⟩
      · exact .inl (h.unfit text x rfl hx hfit)
    · exact .inl (h.unreadable text rfl (not_exists.1 hmeans))

theorem sets_integerOr (default : Int) (raw : Option String) :
    Sets IntegerText (1 ≤ ·) raw default (Settings.integerOr default raw) :=
  sets_positiveOr (fun _ _ => readInteger_eq_some) (fun _ _ => IntegerText.not_blank) (fun x => by simp; omega) default raw

theorem sets_decimalOr (default : Binary64) (raw : Option String) :
    Sets DecimalText (fun x => x.IsPositive ∨ x = .nan) raw default (Settings.decimalOr default raw) :=
  sets_positiveOr (fun _ _ => readDecimal_eq_some) (fun _ _ => DecimalText.not_blank) (fun _ => Binary64.isNonPositive_eq_false)
    default raw

end Sets

/-! ## Origins -/

/-- The parts of a text between commas. -/
structure IsPartsOf (text : List Char) (parts : List (List Char)) : Prop where
  nonempty : parts ≠ []
  joined : [','].intercalate parts = text
  noComma : ∀ part ∈ parts, ',' ∉ part

theorem commaParts_eq (cs : List Char) : Settings.commaParts cs = cs.splitOn ',' := by
  rw [List.splitOn]
  induction cs with
  | nil => rfl
  | cons c cs ih =>
    rw [List.splitOnP_cons_eq_if_modifyHead, ← ih]
    have hne : Settings.commaParts cs ≠ [] := ih ▸ List.splitOnP_ne_nil _ cs
    obtain ⟨part, others, hparts⟩ := List.exists_cons_of_ne_nil hne
    by_cases hc : c = ','
    · subst hc
      rfl
    · rw [Settings.commaParts, hparts, if_neg (by simpa using hc)]
      · rfl
      · exact hc

theorem noComma_of_mem {cs part : List Char} (h : part ∈ Settings.commaParts cs) : ',' ∉ part := by
  induction cs generalizing part with
  | nil =>
    rw [List.mem_singleton.1 h]
    exact List.not_mem_nil
  | cons c cs ih =>
    unfold Settings.commaParts at h
    split at h
    · rename_i heq
      cases heq
    · rename_i heq
      obtain ⟨-, rfl⟩ := List.cons.inj heq
      rcases List.mem_cons.1 h with rfl | h
      · exact List.not_mem_nil
      · exact ih h
    · rename_i d ds hc heq
      obtain ⟨rfl, rfl⟩ := List.cons.inj heq
      split at h
      · rename_i front others hparts
        rcases List.mem_cons.1 h with rfl | h
        · exact List.not_mem_cons_of_ne_of_not_mem (Ne.symm hc) (ih (hparts ▸ List.mem_cons_self))
        · exact ih (hparts ▸ List.mem_cons_of_mem _ h)
      · rw [List.mem_singleton.1 h]
        exact List.not_mem_cons_of_ne_of_not_mem (Ne.symm hc) List.not_mem_nil

theorem isPartsOf_commaParts (cs : List Char) : IsPartsOf cs (Settings.commaParts cs) := by
  refine ⟨?_, ?_, fun part => noComma_of_mem⟩
  · rw [commaParts_eq]
    exact List.splitOn_ne_nil _ _
  · rw [commaParts_eq, List.intercalate_splitOn]

/-- What is left of a text without the space around it. -/
structure IsTrimOf (inner text : List Char) : Prop where
  trimmed : IsTrimmed isBlank inner
  place : ∃ before after, text = before ++ inner ++ after ∧ (∀ c ∈ before, isBlank c = true) ∧ ∀ c ∈ after, isBlank c = true

theorem isTrimOf_trimChars (text : List Char) : IsTrimOf (trimChars isBlank text) text :=
  ⟨isTrimmed_trimChars isBlank text, exists_trim isBlank text⟩

/-- The origins that a text lists: its parts that are not blank, in order, without the space around them; every origin if there
is no such part. -/
inductive Lists (text : List Char) : List String → Prop
  | all {parts : List (List Char)} : IsPartsOf text parts → (∀ part ∈ parts, part.all isBlank = true) → Lists text ["*"]
  | some {parts : List (List Char)} {origins : List String} : IsPartsOf text parts → origins ≠ [] →
      List.Forall₂ (fun part (origin : String) => IsTrimOf origin.toList part) (parts.filter (!·.all isBlank)) origins →
      Lists text origins

section Origins

variable {text : List Char} {origins : List String}

theorem lists_originsOr (text : String) : Lists text.toList (Settings.originsOr text) := by
  have hparts := isPartsOf_commaParts text.toList
  have hempty (part : List Char) : (String.ofList (trimChars isBlank part) != "") = !part.all isBlank := by
    rw [Bool.eq_iff_iff, bne_iff_ne, Bool.not_eq_true', ← Bool.not_eq_true, List.all_eq_true, ← trimChars_eq_nil, ne_eq,
      String.ofList_eq_empty_iff]
  have horigins : Settings.origins text = ((Settings.commaParts text.toList).filter (!·.all isBlank)).map
      fun part => String.ofList (trimChars isBlank part) := by
    rw [Settings.origins, List.filter_map]
    exact congrArg _ (List.filter_congr fun part _ => hempty part)
  unfold Settings.originsOr
  split
  · rename_i hnil
    rw [horigins, List.map_eq_nil_iff, List.filter_eq_nil_iff] at hnil
    exact .all hparts fun part hpart => by simpa using hnil part hpart
  · rename_i hne
    refine .some hparts hne ?_
    rw [horigins, List.forall₂_map_right_iff, List.forall₂_same]
    intro part _
    rw [String.toList_ofList]
    exact isTrimOf_trimChars part

theorem Lists.nonempty (h : Lists text origins) : origins ≠ [] := by
  cases h with
  | all => exact List.cons_ne_nil _ _
  | some _ hne => exact hne

/-- An origin is some text without commas and without space around it. -/
structure IsOrigin (origin : String) : Prop where
  nonempty : origin ≠ ""
  noComma : ',' ∉ origin.toList
  trimmed : IsTrimmed isBlank origin.toList

theorem IsTrimOf.isOrigin {origin : String} {part : List Char} (h : IsTrimOf origin.toList part) (hcomma : ',' ∉ part)
    (hblank : part.all isBlank = false) : IsOrigin origin := by
  obtain ⟨before, after, rfl, hbefore, hafter⟩ := h.place
  refine ⟨?_, fun hmem => hcomma (by simp [hmem]), h.trimmed⟩
  rintro rfl
  have hall : ∀ c ∈ before ++ "".toList ++ after, isBlank c = true := by
    simp only [List.forall_mem_append]
    exact ⟨⟨hbefore, nofun⟩, hafter⟩
  rw [List.all_eq_true.2 hall] at hblank
  cases hblank

theorem forall_isOrigin {parts : List (List Char)}
    (h : List.Forall₂ (fun part (origin : String) => IsTrimOf origin.toList part) parts origins)
    (hparts : ∀ part ∈ parts, ',' ∉ part ∧ part.all isBlank = false) : ∀ origin ∈ origins, IsOrigin origin := by
  induction h with
  | nil => nofun
  | cons htrim _ ih =>
    obtain ⟨⟨hcomma, hblank⟩, hparts⟩ := List.forall_mem_cons.1 hparts
    exact List.forall_mem_cons.2 ⟨htrim.isOrigin hcomma hblank, ih hparts⟩

theorem Lists.isOrigin (h : Lists text origins) : ∀ origin ∈ origins, IsOrigin origin := by
  cases h with
  | all =>
    intro origin horigin
    rw [List.mem_singleton.1 horigin]
    exact ⟨by decide, by decide, isTrimmed_of_all (List.forall_mem_singleton.2 (by decide))⟩
  | some hparts _ horigins =>
    refine forall_isOrigin horigins fun part hpart => ?_
    obtain ⟨hmem, hblank⟩ := List.mem_filter.1 hpart
    exact ⟨hparts.noComma part hmem, by simpa using hblank⟩

end Origins

/-! ## Settings -/

/-- What the settings of some variables are like. -/
structure Settings.Sound (s : Settings) (value : String → Option String) : Prop where
  timeLimit : Sets DecimalText (fun x => x.IsPositive ∨ x = .nan) (value "TRACER_TIME_LIMIT") (.ofInt 2) s.limits.timeLimit
  memoryLimit : Sets IntegerText (1 ≤ ·) (value "TRACER_MEMORY_LIMIT") 67108864 s.limits.memoryLimit
  maxStack : Sets IntegerText (1 ≤ ·) (value "TRACER_MAX_STACK") 1048576 s.limits.maxStack
  maxEvents : Sets IntegerText (1 ≤ ·) (value "TRACER_MAX_EVENTS") 10000 s.limits.maxEvents
  /-- A time limit that is not positive is no number, and this is what its variable holds. -/
  someTime : s.limits.timeLimit.IsPositive ∨
    s.limits.timeLimit = .nan ∧ ∃ text, value "TRACER_TIME_LIMIT" = some text ∧ NoNumberText text
  /-- A variable that holds no number is taken at its word. -/
  noTime : ∀ text, value "TRACER_TIME_LIMIT" = some text → NoNumberText text → s.limits.timeLimit = .nan
  someMemory : 1 ≤ s.limits.memoryLimit
  someStack : 1 ≤ s.limits.maxStack
  someEvents : 1 ≤ s.limits.maxEvents
  origins : Lists ((value "TRACER_CORS_ORIGINS").getD "*").toList s.corsOrigins
  someOrigins : s.corsOrigins ≠ []
  origin : ∀ origin ∈ s.corsOrigins, IsOrigin origin

namespace Settings

theorem sound_ofEnvironment (environment : Fields String) :
    (ofEnvironment environment).Sound (Fields.get? · environment) := by
  have htime := sets_decimalOr (.ofInt 2) (Fields.get? "TRACER_TIME_LIMIT" environment)
  have hleast {default n : Int} {raw : Option String} (h : Sets IntegerText (1 ≤ ·) raw default n) (hdefault : 1 ≤ default) :
      1 ≤ n := by
    rcases h.eq_default_or with rfl | ⟨hn, -⟩
    · exact hdefault
    · exact hn
  have hmemory := sets_integerOr 67108864 (Fields.get? "TRACER_MEMORY_LIMIT" environment)
  have hstack := sets_integerOr 1048576 (Fields.get? "TRACER_MAX_STACK" environment)
  have hevents := sets_integerOr 10000 (Fields.get? "TRACER_MAX_EVENTS" environment)
  have hlists : Lists ((Fields.get? "TRACER_CORS_ORIGINS" environment).getD "*").toList (ofEnvironment environment).corsOrigins := by
    change Lists _ ((Fields.get? "TRACER_CORS_ORIGINS" environment).elim ["*"] originsOr)
    cases Fields.get? "TRACER_CORS_ORIGINS" environment with
    | none => exact lists_originsOr "*"
    | some text => exact lists_originsOr text
  refine ⟨htime, hmemory, hstack, hevents, ?_, fun text htext hnone => ?_, hleast hmemory (by decide), hleast hstack (by decide),
    hleast hevents (by decide), hlists, hlists.nonempty, hlists.isOrigin⟩
  · rcases htime.eq_default_or with hdefault | ⟨hpositive | hnan, text, htext, hmeans⟩
    · refine .inl ?_
      rw [show (ofEnvironment environment).limits.timeLimit = .ofInt 2 from hdefault]
      decide
    · exact .inl hpositive
    · exact .inr ⟨hnan, text, htext, decimalText_nan.1 (hnan ▸ hmeans)⟩
  · exact htime.given text .nan htext (decimalText_nan.2 hnone) (.inr rfl)

/-- No number passes for a positive time limit, and the default is not used. -/
theorem timeLimit_nan : NoNumberText "nan" ∧
    (ofEnvironment [("TRACER_TIME_LIMIT", "nan")]).limits.timeLimit = .nan ∧
    ¬ (ofEnvironment [("TRACER_TIME_LIMIT", "nan")]).limits.timeLimit.IsPositive ∧
    (ofEnvironment [("TRACER_TIME_LIMIT", "nan")]).limits.timeLimit ≠ .ofInt 2 :=
  ⟨⟨false, [], "nan".toList, ⟨[], [], rfl, nofun, nofun⟩, .absent, by decide⟩, by decide +kernel, by decide +kernel,
    by decide +kernel⟩

end Settings

end ScriptTrace
