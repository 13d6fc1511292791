import ScriptTrace.Proofs.ComposedText

/-!
# What stands outside of brackets

The brackets of composed text match, and its pieces do not run into each other. So unless it is bare, there is no word `in`
outside of its brackets, save where one of the copied texts has it.

* `outside` : the characters outside of all brackets; `Matched` : characters the brackets among which match;
* `hasIn`, `bareIn` : whether characters have the word `in`, and whether a text has it outside of its brackets;
* `Legible` : text the brackets of which match, without the word outside of them;
* `PlainCopies` : copied texts without brackets and without the word; `Composed.legible` : text composed with these.
-/

namespace ScriptTrace

/-! ## Brackets -/

def opens (c : Char) : Bool := ['(', '[', '\x7b'].contains c

def closes (c : Char) : Bool := [')', ']', '\x7d'].contains c

/-- The characters outside of all brackets, and the outermost brackets; some are open already. -/
def outside : Nat → List Char → List Char
  | _, [] => []
  | 0, c :: cs => c :: outside (if opens c then 1 else 0) cs
  | depth + 1, c :: cs =>
    if opens c then outside (depth + 2) cs
    else if closes c then (if depth = 0 then [c] else []) ++ outside depth cs
    else outside (depth + 1) cs

/-- Characters the brackets among which match, so that behind them as many are open as in front. -/
structure Matched (xs : List Char) : Prop where
  outer : ∀ rest, outside 0 (xs ++ rest) = outside 0 xs ++ outside 0 rest
  inner : ∀ depth rest, outside (depth + 1) (xs ++ rest) = outside (depth + 1) rest

def isUnbracketed (s : String) : Bool := s.toList.all fun c => !opens c && !closes c

section Brackets

variable {xs ys : List Char} {s : String}

theorem Matched.append (h : Matched xs) (h' : Matched ys) : Matched (xs ++ ys) where
  outer rest := by rw [List.append_assoc, h.outer, h'.outer, h.outer, List.append_assoc]
  inner depth rest := by rw [List.append_assoc, h.inner, h'.inner]

theorem outside_unbracketed (h : xs.all (fun c => !opens c && !closes c) = true) (rest : List Char) :
    outside 0 (xs ++ rest) = xs ++ outside 0 rest ∧ ∀ depth, outside (depth + 1) (xs ++ rest) = outside (depth + 1) rest := by
  induction xs with
  | nil => exact ⟨rfl, fun _ => rfl⟩
  | cons c xs ih =>
    rw [List.all_cons, Bool.and_eq_true, Bool.and_eq_true, Bool.not_eq_true', Bool.not_eq_true'] at h
    obtain ⟨⟨hopens, hcloses⟩, hxs⟩ := h
    obtain ⟨houter, hinner⟩ := ih hxs
    refine ⟨?_, fun depth => ?_⟩
    · rw [List.cons_append, outside, hopens, if_neg Bool.false_ne_true, houter, List.cons_append]
    · rw [List.cons_append, outside, hopens, hcloses, if_neg Bool.false_ne_true, if_neg Bool.false_ne_true, hinner]

theorem outside_of_unbracketed (h : isUnbracketed s = true) : outside 0 s.toList = s.toList := by
  have houter := (outside_unbracketed h []).1
  rwa [List.append_nil, outside, List.append_nil] at houter

theorem matched_of_unbracketed (h : isUnbracketed s = true) : Matched s.toList where
  outer rest := by rw [(outside_unbracketed h rest).1, outside_of_unbracketed h]
  inner depth rest := (outside_unbracketed h rest).2 depth

/-- Of characters in brackets, only the brackets are outside. -/
theorem outside_between {first last : Char} (hfirst : opens first = true) (hlast : opens last = false ∧ closes last = true)
    (h : Matched xs) (rest : List Char) : outside 0 (first :: (xs ++ last :: rest)) = first :: last :: outside 0 rest ∧
      ∀ depth, outside (depth + 1) (first :: (xs ++ last :: rest)) = outside (depth + 1) rest := by
  refine ⟨?_, fun depth => ?_⟩
  · rw [outside, if_pos hfirst, h.inner, outside, hlast.1, hlast.2, if_neg Bool.false_ne_true, if_pos rfl, if_pos rfl]
    rfl
  · rw [outside, if_pos hfirst, h.inner, outside, hlast.1, hlast.2, if_neg Bool.false_ne_true, if_pos rfl,
      if_neg (Nat.succ_ne_zero depth), List.nil_append]

theorem outside_group {opening closing : String} (h : (opening, closing) ∈ brackets) (hs : Matched s.toList) :
    Matched (opening ++ s ++ closing).toList ∧ outside 0 (opening ++ s ++ closing).toList = (opening ++ closing).toList := by
  obtain ⟨first, last, hopening, hclosing, hfirst, hlast⟩ : ∃ first last, opening.toList = [first] ∧ closing.toList = [last] ∧
      opens first = true ∧ opens last = false ∧ closes last = true := by
    simp only [brackets, List.mem_cons, List.not_mem_nil, or_false, Prod.mk.injEq] at h
    rcases h with ⟨rfl, rfl⟩ | ⟨rfl, rfl⟩ | ⟨rfl, rfl⟩ <;> exact ⟨_, _, rfl, rfl, by decide⟩
  have houtside := outside_between hfirst hlast hs
  have hwhole : outside 0 (first :: (s.toList ++ [last])) = [first, last] := (houtside []).1
  simp only [String.toList_append, hopening, hclosing, List.cons_append, List.nil_append]
  refine ⟨⟨fun rest => ?_, fun depth rest => ?_⟩, hwhole⟩
  · rw [hwhole, List.cons_append, List.append_assoc]
    exact (houtside rest).1
  · rw [List.cons_append, List.append_assoc]
    exact (houtside rest).2 depth

end Brackets

/-! ## The word -/

/-- The characters of words. All beyond ASCII are taken for ends of words, so that more is taken for the word `in`. -/
def isWordPart (c : Char) : Bool := c.isAlphanum || c == '$' || c == '_'

/-- Whether characters have the word `in`. The character in front of them may belong to a word. -/
def hasIn : Bool → List Char → Bool
  | _, [] => false
  | behind, c :: cs => (!behind && (c :: cs).takeWhile isWordPart == ['i', 'n']) || hasIn (isWordPart c) cs

/-- Whether a text has the word `in` outside of its brackets. -/
def bareIn (s : String) : Bool := hasIn false (outside 0 s.toList)

section Words

variable {xs ys : List Char} {behind : Bool}

theorem hasIn_false (h : hasIn false xs = false) : hasIn behind xs = false := by
  cases xs with
  | nil => rfl
  | cons c cs =>
    rw [hasIn, Bool.or_eq_false_iff] at h ⊢
    refine ⟨?_, h.2⟩
    cases behind with
    | false => exact h.1
    | true => rfl

/-- The word at the front of two stretches is in the first one, or they meet inside of it. -/
theorem takeWhile_append_in {c : Char} (h : (c :: (xs ++ ys)).takeWhile isWordPart = ['i', 'n']) :
    (c :: xs).takeWhile isWordPart = ['i', 'n'] ∨ (c :: xs).getLast? = some 'i' ∧ ys.head? = some 'n' := by
  have hc : isWordPart c = true := by
    by_contra hc
    rw [List.takeWhile_cons_of_neg hc] at h
    cases h
  rw [List.takeWhile_cons_of_pos hc, List.cons_eq_cons] at h
  obtain ⟨rfl, h⟩ := h
  cases xs with
  | nil =>
    refine .inr ⟨rfl, ?_⟩
    have hhead := congrArg List.head? h
    rw [List.nil_append, List.head?_takeWhile] at hhead
    exact (Option.filter_eq_some_iff.1 hhead).1
  | cons d xs =>
    rw [List.cons_append] at h
    have hd : isWordPart d = true := by
      by_contra hd
      rw [List.takeWhile_cons_of_neg hd] at h
      cases h
    rw [List.takeWhile_cons_of_pos hd, List.cons_eq_cons] at h
    obtain ⟨rfl, h⟩ := h
    refine .inl ?_
    rw [List.takeWhile_cons_of_pos hc, List.takeWhile_cons_of_pos hd]
    cases xs with
    | nil => rfl
    | cons e xs =>
      have he : ¬ isWordPart e = true := fun he => by
        rw [List.cons_append, List.takeWhile_cons_of_pos he] at h
        cases h
      rw [List.takeWhile_cons_of_neg he]

/-- The word does not come about where two stretches meet, unless there its two letters meet. -/
theorem hasIn_append (hx : hasIn behind xs = false) (hy : hasIn false ys = false)
    (hseam : xs.getLast? ≠ some 'i' ∨ ys.head? ≠ some 'n') : hasIn behind (xs ++ ys) = false := by
  induction xs generalizing behind with
  | nil => exact hasIn_false hy
  | cons c xs ih =>
    rw [hasIn, Bool.or_eq_false_iff] at hx
    rw [List.cons_append, hasIn, Bool.or_eq_false_iff]
    refine ⟨?_, ih hx.2 (hseam.imp_left fun hlast h => hlast ?_)⟩
    · rw [Bool.and_eq_false_iff, beq_eq_false_iff_ne] at hx ⊢
      refine hx.1.imp_right fun hne h => ?_
      rcases takeWhile_append_in h with hfirst | ⟨hlast, hhead⟩
      · exact hne hfirst
      · exact hseam.elim (fun hi => hi hlast) fun hn => hn hhead
    · rw [List.getLast?_cons, h]
      rfl

end Words

/-! ## Legible text -/

/-- Text the brackets of which match. Unless it is bare, it does not have the word `in` outside of them. -/
structure Legible (bare : Bool) (s : String) : Prop where
  matched : Matched s.toList
  quiet : bare = false → bareIn s = false

/-- Whether the last character outside of brackets is the first letter of the word. -/
def endsInI (s : String) : Bool := (outside 0 s.toList).getLast? == some 'i'

/-- Whether the first character is the second letter of the word. -/
def beginsWithN (s : String) : Bool := s.toList.head? == some 'n'

/-- Text without brackets and without the word `in`. -/
def isClear (s : String) : Bool := isUnbracketed s && !hasIn false s.toList

/-- Clear text that stands between others without running into them. -/
def isSpacer (s : String) : Bool := isClear s && s.toList.head?.any (· != 'n') && s.toList.getLast?.any (· != 'i')

theorem head?_outside (xs : List Char) : (outside 0 xs).head? = xs.head? := by cases xs <;> rfl

theorem legible_of_unbracketed {s : String} (h : isUnbracketed s = true) : Legible true s := ⟨matched_of_unbracketed h, by simp⟩

theorem legible_of_clear {bare : Bool} {s : String} (h : isClear s = true) : Legible bare s := by
  rw [isClear, Bool.and_eq_true, Bool.not_eq_true'] at h
  refine ⟨matched_of_unbracketed h.1, fun _ => ?_⟩
  rw [bareIn, outside_of_unbracketed h.1]
  exact h.2

theorem isClear_of_spacer {w : String} (h : isSpacer w = true) : isClear w = true := by
  rw [isSpacer, Bool.and_assoc, Bool.and_eq_true] at h
  exact h.1

section Legible

variable {bare : Bool} {s t w : String}

theorem outside_append (hs : Matched s.toList) (t : String) :
    outside 0 (s ++ t).toList = outside 0 s.toList ++ outside 0 t.toList := by rw [String.toList_append, hs.outer]

theorem Legible.append (hs : Legible bare s) (ht : Legible bare t)
    (hseam : bare = false → endsInI s = false ∨ beginsWithN t = false) : Legible bare (s ++ t) := by
  refine ⟨?_, fun hbare => ?_⟩
  · rw [String.toList_append]
    exact hs.matched.append ht.matched
  · rw [bareIn, outside_append hs.matched]
    refine hasIn_append (hs.quiet hbare) (ht.quiet hbare) ?_
    rw [head?_outside]
    exact (hseam hbare).imp ne_of_beq_false ne_of_beq_false

theorem endsInI_append (hs : Matched s.toList) (hfirst : endsInI s = false) (hsecond : endsInI t = false) :
    endsInI (s ++ t) = false := by
  rw [endsInI, beq_eq_false_iff_ne] at hfirst hsecond ⊢
  rw [outside_append hs, List.getLast?_append]
  cases hlast : (outside 0 t.toList).getLast? with
  | none => exact hfirst
  | some c => rwa [hlast] at hsecond

theorem beginsWithN_of_spacer (h : isSpacer w = true) : beginsWithN w = false := by
  rw [isSpacer, Bool.and_eq_true, Bool.and_eq_true, Option.any_eq_true] at h
  obtain ⟨⟨-, c, hc, hn⟩, -⟩ := h
  rw [beginsWithN, hc]
  exact beq_false_of_ne fun h => bne_iff_ne.1 hn (Option.some.inj h)

theorem endsInI_spacer (hs : Matched s.toList) (h : isSpacer w = true) : endsInI (s ++ w) = false := by
  have hclear := isClear_of_spacer h
  rw [isSpacer, Bool.and_eq_true, Option.any_eq_true] at h
  obtain ⟨-, c, hc, hi⟩ := h
  rw [endsInI, outside_append hs, outside_of_unbracketed (Bool.and_eq_true_iff.1 hclear).1, List.getLast?_append, hc]
  exact beq_false_of_ne fun h => bne_iff_ne.1 hi (Option.some.inj h)

theorem Legible.between (hs : Legible bare s) (hw : isSpacer w = true) (ht : Legible bare t) : Legible bare (s ++ w ++ t) :=
  (hs.append (legible_of_clear (isClear_of_spacer hw)) fun _ => .inr (beginsWithN_of_spacer hw)).append ht
    fun _ => .inl (endsInI_spacer hs.matched hw)

/-- Brackets are legible, whatever the text in them has. -/
theorem legible_group {opening closing : String} (h : (opening, closing) ∈ brackets) (hs : Legible true s) :
    Legible bare (opening ++ s ++ closing) ∧ endsInI (opening ++ s ++ closing) = false := by
  have hclear : ∀ b ∈ brackets, hasIn false (b.1 ++ b.2).toList = false ∧ ((b.1 ++ b.2).toList.getLast? == some 'i') = false := by
    decide +kernel
  obtain ⟨hin, hlast⟩ := hclear _ h
  obtain ⟨hmatched, houtside⟩ := outside_group h hs.matched
  refine ⟨⟨hmatched, fun _ => ?_⟩, ?_⟩
  · rw [bareIn, houtside]
    exact hin
  · rw [endsInI, houtside]
    exact hlast

end Legible

/-! ## Composed text -/

/-- Whether a copied text has neither brackets nor the word. Signs and stretches of templates may stand beside other text
without a space. -/
def isPlainCopy : CopyKind → String → Bool
  | .sign, s => isClear s && !endsInI s && !beginsWithN s
  | .raw, s => isClear s && !endsInI s
  | _, s => isClear s

/-- Copied texts that have neither brackets nor the word. -/
def PlainCopies (copied : CopyKind → String → Prop) : Prop := ∀ kind s, copied kind s → isPlainCopy kind s = true

/-- The operators that stand between two operands. -/
def operators : List String :=
  ["||", "??", "&&", "|", "^", "&", "==", "!=", "===", "!==", "<", ">", "<=", ">=", "in", "instanceof", "<<", ">>", ">>>", "+", "-",
    "*", "/", "%", "**"]

theorem mem_operators {s : String} (h : (Precedence.binary? s).isSome = true) : s ∈ operators := by
  unfold Precedence.binary? at h
  split at h
  case h_26 => cases h
  all_goals decide

theorem legible_operator {bare : Bool} {s : String} (h : (Precedence.binary? s).isSome = true) (hin : s = "in" → bare = true) :
    Legible bare s := by
  have hall : operators.all isUnbracketed = true ∧ (operators.erase "in").all isClear = true := by decide +kernel
  by_cases hs : s = "in"
  · rw [hin hs]
    exact legible_of_unbracketed (List.all_eq_true.1 hall.1 s (mem_operators h))
  · exact legible_of_clear (List.all_eq_true.1 hall.2 s ((List.mem_erase_of_ne hs).2 (mem_operators h)))

theorem beginsWithN_of_opens {t : String} (h : opensGroup t = true) : beginsWithN t = false := by
  obtain ⟨c, hc, hopens⟩ := (Option.any_eq_true _ _).1 h
  rw [beginsWithN, hc]
  refine beq_false_of_ne fun hn => ?_
  cases hn
  exact absurd hopens (by decide)

section Composed

variable {copied : CopyKind → String → Prop} {bare : Bool} {s : String}

namespace PlainCopies

theorem clear (h : PlainCopies copied) {kind : CopyKind} (hs : copied kind s) : isClear s = true := by
  have hplain := h kind s hs
  cases kind with
  | sign => exact (Bool.and_eq_true_iff.1 (Bool.and_eq_true_iff.1 hplain).1).1
  | raw => exact (Bool.and_eq_true_iff.1 hplain).1
  | _ => exact hplain

theorem legible (h : PlainCopies copied) {kind : CopyKind} (hs : copied kind s) : Legible bare s := legible_of_clear (h.clear hs)

theorem sign (h : PlainCopies copied) (hs : copied .sign s) : endsInI s = false ∧ beginsWithN s = false := by
  have hplain := h .sign s hs
  rw [isPlainCopy, Bool.and_eq_true, Bool.and_eq_true, Bool.not_eq_true', Bool.not_eq_true'] at hplain
  exact ⟨hplain.1.2, hplain.2⟩

theorem raw (h : PlainCopies copied) (hs : copied .raw s) : endsInI s = false := by
  have hplain := h .raw s hs
  rw [isPlainCopy, Bool.and_eq_true, Bool.not_eq_true'] at hplain
  exact hplain.2

end PlainCopies

/-- A stretch of a template, with the expression behind it. -/
theorem legible_part (hcopied : PlainCopies copied) {part : String × Option String} (h : copied .raw part.1)
    (hs : ∀ s ∈ part.2, Legible true s) :
    Legible bare (part.1 ++ part.2.elim "" fun s => "$\x7b" ++ s ++ "\x7d") ∧
      endsInI (part.1 ++ part.2.elim "" fun s => "$\x7b" ++ s ++ "\x7d") = false := by
  obtain ⟨raw, hole⟩ := part
  have hraw : Legible bare raw := hcopied.legible h
  cases hole with
  | none =>
    rw [Option.elim_none, String.append_empty]
    exact ⟨hraw, hcopied.raw h⟩
  | some s =>
    have hspacer : isSpacer "$" = true := by decide +kernel
    have hgroup : Legible bare ("\x7b" ++ s ++ "\x7d") ∧ endsInI ("\x7b" ++ s ++ "\x7d") = false :=
      legible_group (by decide) (hs s rfl)
    rw [Option.elim_some, show raw ++ ("$\x7b" ++ s ++ "\x7d") = raw ++ "$" ++ ("\x7b" ++ s ++ "\x7d") by
      simp only [String.append_assoc]; rfl]
    have hfront : Matched (raw ++ "$").toList := by
      rw [String.toList_append]
      exact hraw.matched.append (matched_of_unbracketed (by decide))
    exact ⟨hraw.between hspacer hgroup.1, endsInI_append hfront (endsInI_spacer hraw.matched hspacer) hgroup.2⟩

theorem legible_templateInside (hcopied : PlainCopies copied) : ∀ {parts : List (String × Option String)},
    (∀ part ∈ parts, copied .raw part.1) → (∀ part ∈ parts, ∀ s ∈ part.2, Legible true s) → Legible bare (templateInside parts)
  | [], _, _ => legible_of_clear (by decide)
  | part :: parts, h, hs => by
    obtain ⟨hpart, hparts⟩ := List.forall_mem_cons.1 h
    obtain ⟨hhole, hholes⟩ := List.forall_mem_cons.1 hs
    obtain ⟨hfirst, hend⟩ : Legible bare _ ∧ endsInI _ = false := legible_part hcopied hpart hhole
    rw [templateInside, List.map_cons, String.join_cons]
    exact hfirst.append (legible_templateInside hcopied hparts hholes) fun _ => .inl hend

/-- Composed text is legible where the copied texts are plain. The induction goes through the rules: where a rule sets two
parts side by side, a space, a sign or a bracket keeps the letters of the word apart. -/
theorem Composed.legible (hcopied : PlainCopies copied) (h : Composed copied bare s) : Legible bare s := by
  have hspace : isSpacer " " = true := by decide +kernel
  induction h with
  | atom h =>
    have hall : atoms.all isClear = true := by decide +kernel
    exact legible_of_clear (List.all_eq_true.1 hall _ h)
  | name h => exact hcopied.legible h
  | literal h => exact hcopied.legible h
  | lead h _ ih =>
    have hall : leads.all (fun w => isClear w && !endsInI w) = true := by decide +kernel
    obtain ⟨hclear, hend⟩ := Bool.and_eq_true_iff.1 (List.all_eq_true.1 hall _ h)
    exact (legible_of_clear hclear).append ih fun _ => .inl (Bool.not_eq_true' _ ▸ hend)
  | joint h _ _ ihs iht =>
    have hall : joints.all isSpacer = true := by decide +kernel
    exact ihs.between (List.all_eq_true.1 hall _ h) iht
  | declared h _ ih => exact (hcopied.legible h).between hspace ih
  | property _ h ih => exact ih.between (by decide +kernel) (hcopied.legible h)
  | operator h hin _ _ ihs iht => exact (ihs.between hspace (legible_operator h hin)).between hspace iht
  | assigned h _ _ ihs iht => exact (ihs.between hspace (hcopied.legible h)).between hspace iht
  | signed h hgap _ ih =>
    simp only [List.mem_cons, List.not_mem_nil, or_false] at hgap
    rcases hgap with rfl | rfl
    · rw [String.append_empty]
      exact (hcopied.legible h).append ih fun _ => .inl (hcopied.sign h).1
    · exact (hcopied.legible h).between hspace ih
  | postfixed h _ ih => exact ih.append (hcopied.legible h) fun _ => .inr (hcopied.sign h).2
  | group h _ ih => exact (legible_group h ih).1
  | @template bare _ h _ ih =>
    have htick : isSpacer "\x60" = true := by decide +kernel
    have htext : Legible bare "\x60" := legible_of_clear (isClear_of_spacer htick)
    have hfront := htext.append (legible_templateInside hcopied h ih) fun _ => .inl (by decide +kernel)
    exact hfront.append htext fun _ => .inr (beginsWithN_of_spacer htick)
  | beside hgap _ _ hopens ihs iht =>
    simp only [List.mem_cons, List.not_mem_nil, or_false] at hgap
    rcases hgap with rfl | rfl
    · rw [String.append_empty]
      exact ihs.append iht fun _ => .inr (beginsWithN_of_opens hopens)
    · exact ihs.between hspace iht
  | word h =>
    have hall : words.all isUnbracketed = true := by decide +kernel
    exact legible_of_unbracketed (List.all_eq_true.1 hall _ h)
  | append _ _ ihs iht => exact ihs.append iht (by simp)

end Composed

end ScriptTrace
