import Mathlib.Data.List.DropRight
import ScriptTrace.Sandbox.Execution

/-!
# What is told of an exception

The message of a run that threw is one line of the text thrown: the first one that is not blank, without the space
around it. A text without such a line has a message as well.

* `IsTrimmed` : no space at either end;
* `trimChars_append` : trimming takes away the space around a trimmed text;
* `IsMessage` : one line of text with nothing to trim;
* `IsFirstLine` : such a line, as the first one of a text;
* `isFirstLine_iff`, `thrownMessage_of_blank` : the message of an exception.
-/

namespace ScriptTrace

/-! ## Trimming -/

section Trimming

variable {space : Char → Bool} {cs : List Char}

/-- Neither the first nor the last character is space. -/
structure IsTrimmed (space : Char → Bool) (cs : List Char) : Prop where
  head : ∀ h : cs ≠ [], space (cs.head h) = false
  last : ∀ h : cs ≠ [], space (cs.getLast h) = false

theorem isTrimmed_trimChars (space : Char → Bool) (cs : List Char) : IsTrimmed space (trimChars space cs) := by
  change IsTrimmed space ((cs.dropWhile space).rdropWhile space)
  refine ⟨fun h => ?_, fun h => by simpa using List.rdropWhile_last_not space _ h⟩
  have htrim := List.rdropWhile_prefix space (cs.dropWhile space)
  rw [htrim.head h]
  exact List.head_dropWhile_not space _

/-- Only space is taken away. -/
theorem exists_trim (space : Char → Bool) (cs : List Char) : ∃ before after, cs = before ++ trimChars space cs ++ after ∧
    (∀ c ∈ before, space c = true) ∧ ∀ c ∈ after, space c = true := by
  refine ⟨cs.takeWhile space, (cs.dropWhile space).rtakeWhile space, ?_, fun _ => List.mem_takeWhile_imp,
    fun _ => List.mem_rtakeWhile_imp⟩
  change cs = cs.takeWhile space ++ (cs.dropWhile space).rdropWhile space ++ _
  rw [List.append_assoc, List.rdropWhile_append_rtakeWhile, List.takeWhile_append_dropWhile]

theorem trimChars_eq_nil : trimChars space cs = [] ↔ ∀ c ∈ cs, space c = true := by
  change (cs.dropWhile space).rdropWhile space = [] ↔ _
  rw [List.rdropWhile_eq_nil_iff]
  constructor
  · intro h c hc
    by_contra hspace
    have hne : cs.dropWhile space ≠ [] := fun hnil => hspace (List.dropWhile_eq_nil_iff.1 hnil c hc)
    have hhead := h _ (List.head_mem hne)
    rw [List.head_dropWhile_not space hne] at hhead
    cases hhead
  · intro h c hc
    rw [List.dropWhile_eq_nil_iff.2 h] at hc
    cases hc

theorem dropWhile_of_trimmed (h : IsTrimmed space cs) (hne : cs ≠ []) (rest : List Char) :
    (cs ++ rest).dropWhile space = cs ++ rest := by
  cases cs with
  | nil => exact absurd rfl hne
  | cons c cs => rw [List.cons_append, List.dropWhile_cons_of_neg (by simpa using h.head hne)]

theorem rdropWhile_append (h : IsTrimmed space cs) (hne : cs ≠ []) (rest : List Char) :
    (cs ++ rest).rdropWhile space = cs ++ rest.rdropWhile space := by
  induction rest using List.reverseRecOn with
  | nil =>
    rw [List.append_nil, List.rdropWhile_nil, List.append_nil]
    exact List.rdropWhile_eq_self_iff.2 fun _ => by simpa using h.last hne
  | append_singleton rest c ih =>
    rw [← List.append_assoc]
    by_cases hc : space c = true
    · rw [List.rdropWhile_concat_pos _ _ _ hc, List.rdropWhile_concat_pos _ _ _ hc, ih]
    · rw [List.rdropWhile_concat_neg _ _ _ hc, List.rdropWhile_concat_neg _ _ _ hc, List.append_assoc]

/-- Trimming takes away space before a trimmed text, and what is space at the end. -/
theorem trimChars_append (h : IsTrimmed space cs) (hne : cs ≠ []) {before : List Char} (rest : List Char)
    (hbefore : ∀ c ∈ before, space c = true) : trimChars space (before ++ (cs ++ rest)) = cs ++ rest.rdropWhile space := by
  change ((before ++ (cs ++ rest)).dropWhile space).rdropWhile space = _
  rw [List.dropWhile_append_of_pos hbefore, dropWhile_of_trimmed h hne, rdropWhile_append h hne]

theorem trimChars_around (h : IsTrimmed space cs) (hne : cs ≠ []) {before after : List Char}
    (hbefore : ∀ c ∈ before, space c = true) (hafter : ∀ c ∈ after, space c = true) :
    trimChars space (before ++ (cs ++ after)) = cs := by
  rw [trimChars_append h hne after hbefore, List.rdropWhile_eq_nil_iff.2 hafter, List.append_nil]

end Trimming

/-! ## The first line -/

/-- Only space. -/
def IsBlankText (text : String) : Prop := ∀ c ∈ text.toList, isBlank c = true

instance (text : String) : Decidable (IsBlankText text) := List.decidableBAll (fun c => isBlank c = true) text.toList

/-- One line of text with nothing to trim. -/
structure IsMessage (line : String) : Prop where
  nonempty : line.toList ≠ []
  unbroken : ∀ c ∈ line.toList, isLineBreak c = false
  trimmed : IsTrimmed isBlank line.toList

/-- A message stands in a text with nothing but space before it, and nothing but space after it before the line ends. -/
structure IsFirstLine (text line : String) : Prop where
  message : IsMessage line
  place : ∃ before after rest, text.toList = before ++ (line.toList ++ (after ++ rest)) ∧ (∀ c ∈ before, isBlank c = true) ∧
    (∀ c ∈ after, isBlank c = true) ∧ ∀ c ∈ rest.head?, isLineBreak c = true

/-- A line ends with space. -/
theorem isBlank_of_isLineBreak {c : Char} (h : isLineBreak c = true) : isBlank c = true := by
  simp only [isLineBreak, isBlank, isWhiteSpace, whiteSpace, CharTable.contains, List.any_cons, List.any_nil, Bool.or_false,
    Bool.or_eq_true, Bool.and_eq_true, decide_eq_true_eq] at h ⊢
  omega

/-- What stands in a line after the message is space. -/
theorem blank_before_break {after rest line : List Char} (hafter : ∀ c ∈ after, isBlank c = true)
    (hrest : ∀ c ∈ rest.head?, isLineBreak c = true) (hline : line <+: after ++ rest) :
    ∀ c ∈ line.takeWhile (!isLineBreak ·), isBlank c = true := by
  induction after generalizing line with
  | nil =>
    intro c hc
    cases line with
    | nil => cases hc
    | cons d line =>
      obtain ⟨more, rfl⟩ := hline
      have hbreak : isLineBreak d = true := hrest d rfl
      rw [List.takeWhile_cons_of_neg (by simp [hbreak])] at hc
      cases hc
  | cons a after ih =>
    intro c hc
    cases line with
    | nil => cases hc
    | cons d line =>
      rw [List.cons_append, List.cons_prefix_cons] at hline
      obtain ⟨rfl, hline⟩ := hline
      obtain ⟨hd, hafter⟩ := List.forall_mem_cons.1 hafter
      by_cases hbreak : isLineBreak d = true
      · rw [List.takeWhile_cons_of_neg (by simp [hbreak])] at hc
        cases hc
      · rw [List.takeWhile_cons_of_pos (by simp [hbreak])] at hc
        obtain rfl | hc := List.mem_cons.1 hc
        · exact hd
        · exact ih hafter hline c hc

theorem thrownMessage_of_blank {text : String} (h : IsBlankText text) : thrownMessage text = "Unknown error" := by
  have hstrip : strip text = "" := congrArg String.ofList (trimChars_eq_nil.2 h)
  unfold thrownMessage
  rw [hstrip]
  rfl

theorem thrownMessage_of_not_blank {text : String} (h : ¬ IsBlankText text) :
    thrownMessage text = strip (firstLine (strip text)) := by
  have hstrip : strip text ≠ "" := fun hnil => h (trimChars_eq_nil.1 (by
    have hlist := congrArg String.toList hnil
    rwa [strip, String.toList_ofList] at hlist))
  unfold thrownMessage
  split
  · exact absurd ‹_› hstrip
  · rfl

theorem IsFirstLine.not_blank {text line : String} (h : IsFirstLine text line) : ¬ IsBlankText text := by
  obtain ⟨⟨hne, -, htrimmed⟩, before, after, rest, htext, -⟩ := h
  intro hall
  have hhead := hall (line.toList.head hne) (by rw [htext]; simp [List.head_mem])
  exact Bool.noConfusion ((htrimmed.head hne).symm.trans hhead)

/-- There is only one first line. -/
theorem IsFirstLine.eq_thrownMessage {text line : String} (h : IsFirstLine text line) : line = thrownMessage text := by
  rw [thrownMessage_of_not_blank h.not_blank]
  obtain ⟨⟨hne, hunbroken, htrimmed⟩, before, after, rest, htext, hbefore, hafter, hrest⟩ := h
  rw [strip, firstLine, strip, String.toList_ofList, String.toList_ofList, htext,
    trimChars_append htrimmed hne _ hbefore, List.takeWhile_append_of_pos fun c hc => by simp [hunbroken c hc]]
  have hspace := blank_before_break hafter hrest (List.rdropWhile_prefix isBlank (after ++ rest))
  rw [← List.nil_append (line.toList ++ _), trimChars_around htrimmed hne (fun _ h => absurd h List.not_mem_nil) hspace,
    String.ofList_toList]

/-- The line up to the first break of a text that begins with what is no space is not blank. -/
theorem not_blank_before_break {cs : List Char} (hne : cs ≠ []) (hhead : isBlank (cs.head hne) = false) :
    ¬ ∀ c ∈ cs.takeWhile (!isLineBreak ·), isBlank c = true := by
  intro hall
  obtain ⟨c, rest, rfl⟩ := List.exists_cons_of_ne_nil hne
  have hbreak : isLineBreak c = false := by
    by_contra hbreak
    exact Bool.noConfusion (hhead.symm.trans (isBlank_of_isLineBreak (by simpa using hbreak)))
  rw [List.takeWhile_cons_of_pos (by simp [hbreak])] at hall
  exact Bool.noConfusion (hhead.symm.trans (hall c List.mem_cons_self))

/-- A text with more in it than space has a first line. -/
theorem isFirstLine_thrownMessage {text : String} (h : ¬ IsBlankText text) : IsFirstLine text (thrownMessage text) := by
  rw [thrownMessage_of_not_blank h, strip, firstLine, strip, String.toList_ofList, String.toList_ofList]
  obtain ⟨before, after, htext, hbefore, hafter⟩ := exists_trim isBlank text.toList
  have hne : trimChars isBlank text.toList ≠ [] := mt trimChars_eq_nil.1 h
  have hhead := (isTrimmed_trimChars isBlank text.toList).head hne
  generalize trimChars isBlank text.toList = cs at htext hne hhead ⊢
  obtain ⟨left, right, hline, hleft, hright⟩ := exists_trim isBlank (cs.takeWhile (!isLineBreak ·))
  have hlineNe := mt trimChars_eq_nil.1 (not_blank_before_break hne hhead)
  have htrimmed := isTrimmed_trimChars isBlank (cs.takeWhile (!isLineBreak ·))
  generalize trimChars isBlank (cs.takeWhile (!isLineBreak ·)) = line at hline hlineNe htrimmed ⊢
  have hunbroken : ∀ c ∈ line, isLineBreak c = false := by
    intro c hc
    have hmem : c ∈ cs.takeWhile (!isLineBreak ·) := by
      rw [hline]
      simp [hc]
    simpa using List.mem_takeWhile_imp hmem
  have hcs : cs = left ++ line ++ right ++ cs.dropWhile (!isLineBreak ·) := by
    rw [← hline, List.takeWhile_append_dropWhile]
  have hblank : ∀ c ∈ before ++ left, isBlank c = true := List.forall_mem_append.2 ⟨hbefore, hleft⟩
  refine ⟨⟨?_, ?_, ?_⟩, ?_⟩ <;> rw [String.toList_ofList]
  · exact hlineNe
  · exact hunbroken
  · exact htrimmed
  cases hrest : cs.dropWhile (!isLineBreak ·) with
  | nil =>
    refine ⟨before ++ left, right ++ after, [], ?_, hblank, List.forall_mem_append.2 ⟨hright, hafter⟩, nofun⟩
    rw [htext, hcs, hrest]
    simp only [List.append_assoc, List.append_nil]
  | cons c rest =>
    refine ⟨before ++ left, right, c :: rest ++ after, ?_, hblank, hright, ?_⟩
    · rw [htext, hcs, hrest]
      simp only [List.append_assoc]
    · rintro _ ⟨⟩
      have hbreak := List.head_dropWhile_not (!isLineBreak ·) (l := cs) (by rw [hrest]; nofun)
      simpa [hrest] using hbreak

/-- The message of an exception is the first line of its text, if there is one. -/
theorem isFirstLine_iff {text line : String} : IsFirstLine text line ↔ ¬ IsBlankText text ∧ line = thrownMessage text :=
  ⟨fun h => ⟨h.not_blank, h.eq_thrownMessage⟩, fun h => h.2 ▸ isFirstLine_thrownMessage h.1⟩

end ScriptTrace
