import ScriptTrace.Probe.Record
import ScriptTrace.Syntax.Literal
import ScriptTrace.Text.Affix
import ScriptTrace.Text.Blank
import ScriptTrace.Text.Digit
import Mathlib.Data.List.Basic

/-!
# Texts that depend on the numbers of loop variables

The names of loop variables are numbered on from one program to the next. All else in a text is the same however many
variables there were before. So a text is told by a template, in which the gaps stand for names, and every operation
on texts that is used keeps to templates.

* `Template`, `Template.fill` : a text with gaps, and the text once the number of earlier variables is known;
* `NumberedChars`, `NumberedText` : the texts that a template gives, the variables in it being among the first `m`;
* `NumberedText.append`, `NumberedText.squeeze`, `NumberedText.quote`, ... : how such texts are made;
* `NumberedText.startsWith`, `NumberedText.eq_iff`, ... : what is asked of them has the same answer for all numbers.
-/

namespace ScriptTrace

/-! ## Templates -/

/-- A text with gaps for the names of loop variables, which are counted from where a pass starts. -/
abbrev Template := List (Char ⊕ Nat)

namespace Template

/-- The name of the `n`-th variable of a pass, when there were `c` variables before. -/
def name (c n : Nat) : List Char := (Probe.initName (c + n)).toList

def chars (t : Template) (c : Nat) : List Char := t.flatMap (Sum.elim (fun a => [a]) (name c))

/-- The text when there were `c` variables before. -/
def fill (t : Template) (c : Nat) : String := String.ofList (t.chars c)

/-- The variables that are named in the text. -/
def gaps (t : Template) : List Nat := t.filterMap Sum.getRight?

end Template

/-- The characters of which names of loop variables are made. -/
def nameChars : List Char := "__probe_init_0123456789".toList

theorem name_eq (c n : Nat) : Template.name c n = '_' :: ("_probe_init_".toList ++ Nat.toDigits 10 (c + n)) := by
  have htext : Probe.initName (c + n) = "__probe_init_" ++ (c + n).repr := rfl
  rw [Template.name, htext, String.toList_append, Nat.toList_repr]
  rfl

theorem mem_nameChars {c n : Nat} {a : Char} (h : a ∈ Template.name c n) : a ∈ nameChars := by
  rw [name_eq, List.mem_cons, List.mem_append] at h
  obtain rfl | h | h := h
  · decide
  · have hall : "_probe_init_".toList.all nameChars.contains = true := by decide
    exact List.contains_iff_mem.1 (List.all_eq_true.1 hall a h)
  · have hdigit := Nat.isDigit_of_mem_toDigits (by decide) (by decide) h
    have hall : ∀ n < 58, (Char.ofNat n).isDigit = true → Char.ofNat n ∈ nameChars := by decide
    have hlt : a.toNat < 58 := by
      simp only [Char.isDigit, Bool.and_eq_true, decide_eq_true_eq] at hdigit
      exact Nat.lt_succ_of_le (UInt32.le_iff_toNat_le.1 hdigit.2)
    rw [← Char.ofNat_toNat a] at hdigit ⊢
    exact hall _ hlt hdigit

/-- The characters that a template gives, with the variables in it among the first `m`. -/
inductive NumberedChars (m : Nat) : (Nat → List Char) → Prop
  | nil : NumberedChars m fun _ => []
  | char (a : Char) {cs : Nat → List Char} (h : NumberedChars m cs) : NumberedChars m fun c => a :: cs c
  | name (n : Nat) (hpos : 0 < n) (hle : n ≤ m) {cs : Nat → List Char} (h : NumberedChars m cs) :
      NumberedChars m fun c => Template.name c n ++ cs c

namespace NumberedChars

variable {m : Nat} {cs ds : Nat → List Char}

theorem exists_template (h : NumberedChars m cs) :
    ∃ t : Template, (∀ n ∈ t.gaps, 0 < n ∧ n ≤ m) ∧ ∀ c, cs c = t.chars c := by
  induction h with
  | nil => exact ⟨[], nofun, fun _ => rfl⟩
  | char a h ih =>
    obtain ⟨t, hgaps, ht⟩ := ih
    exact ⟨.inl a :: t, hgaps, fun c => congrArg (a :: ·) (ht c)⟩
  | name n hpos hle h ih =>
    obtain ⟨t, hgaps, ht⟩ := ih
    exact ⟨.inr n :: t, List.forall_mem_cons.2 ⟨⟨hpos, hle⟩, hgaps⟩, fun c => congrArg (Template.name c n ++ ·) (ht c)⟩

theorem mono {m' : Nat} (h : NumberedChars m cs) (hle : m ≤ m') : NumberedChars m' cs := by
  induction h with
  | nil => exact .nil
  | char a h ih => exact .char a ih
  | name n hpos hn h ih => exact .name n hpos (Nat.le_trans hn hle) ih

theorem const (m : Nat) (cs : List Char) : NumberedChars m fun _ => cs := by
  induction cs with
  | nil => exact .nil
  | cons a cs ih => exact .char a ih

theorem name_self {n : Nat} (hpos : 0 < n) (hle : n ≤ m) : NumberedChars m fun c => Template.name c n := by
  simpa only [List.append_nil] using NumberedChars.nil.name n hpos hle

theorem append (h : NumberedChars m cs) (hds : NumberedChars m ds) : NumberedChars m fun c => cs c ++ ds c := by
  induction h with
  | nil => exact hds
  | char a h ih => exact .char a ih
  | name n hpos hle h ih =>
    simp only [List.append_assoc]
    exact .name n hpos hle ih

/-- Escapes that leave the characters of names alone. -/
theorem flatMap (h : NumberedChars m cs) {f : Char → List Char} (hf : ∀ a ∈ nameChars, f a = [a]) :
    NumberedChars m fun c => (cs c).flatMap f := by
  induction h with
  | nil => exact .nil
  | char a h ih =>
    simp only [List.flatMap_cons]
    exact (const m (f a)).append ih
  | name n hpos hle h ih =>
    have hname (c : Nat) : (Template.name c n).flatMap f = Template.name c n := by
      rw [List.flatMap_congr fun a ha => hf a (mem_nameChars ha), List.flatMap_singleton']
    simp only [List.flatMap_append, hname]
    exact .name n hpos hle ih

/-- Whether some character is there that is in no name. -/
theorem contains (h : NumberedChars m cs) {a : Char} (ha : a ∉ nameChars) (c : Nat) : (cs c).contains a = (cs 0).contains a := by
  induction h with
  | nil => rfl
  | char b h ih => rw [List.contains_cons, List.contains_cons, ih]
  | name n hpos hle h ih =>
    have hname (c : Nat) : (Template.name c n).contains a = false := by
      rw [← Bool.not_eq_true, List.contains_iff_mem]
      exact fun hmem => ha (mem_nameChars hmem)
    rw [List.contains_append, List.contains_append, ih, hname, hname]

/-- How the text begins, as far as no name is looked into. -/
theorem isPrefixOf (h : NumberedChars m cs) {start : List Char} (hstart : '_' ∉ start) (c : Nat) :
    start.isPrefixOf (cs c) = start.isPrefixOf (cs 0) := by
  induction h generalizing start with
  | nil => rfl
  | char a h ih =>
    cases start with
    | nil => rfl
    | cons b start =>
      rw [List.isPrefixOf_cons_cons, List.isPrefixOf_cons_cons, ih fun hmem => hstart (List.mem_cons_of_mem _ hmem)]
  | name n hpos hle h ih =>
    cases start with
    | nil => rw [List.isPrefixOf_nil_left, List.isPrefixOf_nil_left]
    | cons b start =>
      have hb : (b == '_') = false := beq_false_of_ne fun hb => hstart (hb ▸ List.mem_cons_self)
      dsimp only
      rw [name_eq, name_eq, List.cons_append, List.cons_append, List.isPrefixOf_cons_cons, List.isPrefixOf_cons_cons, hb,
        Bool.false_and, Bool.false_and]

theorem head? (h : NumberedChars m cs) (c : Nat) : (cs c).head? = (cs 0).head? := by
  cases h with
  | nil => rfl
  | char a h => rfl
  | name n hpos hle h =>
    dsimp only
    rw [name_eq, name_eq]
    rfl

/-- A text that is known to have no `_` in it is the same for all numbers. -/
theorem eq_iff (h : NumberedChars m cs) {word : List Char} (hword : '_' ∉ word) (c : Nat) : cs c = word ↔ cs 0 = word := by
  induction h generalizing word with
  | nil => exact Iff.rfl
  | char a h ih =>
    cases word with
    | nil => exact ⟨nofun, nofun⟩
    | cons b word =>
      rw [List.cons.injEq, List.cons.injEq, ih fun hmem => hword (List.mem_cons_of_mem _ hmem)]
  | name n hpos hle h ih =>
    have hnot (c : Nat) (rest : List Char) : Template.name c n ++ rest ≠ word := by
      intro heq
      rw [← heq, name_eq] at hword
      exact hword List.mem_cons_self
    exact ⟨fun heq => absurd heq (hnot c _), fun heq => absurd heq (hnot 0 _)⟩

end NumberedChars

/-! ## Words -/

/-- Lists of one length, whose items are taken place by place. -/
def NumberedList {α : Type} (Q : (Nat → α) → Prop) (xs : Nat → List α) : Prop :=
  ∃ ys : List (Nat → α), (xs = fun c => ys.map (· c)) ∧ ∀ y ∈ ys, Q y

theorem NumberedList.nil {α : Type} {Q : (Nat → α) → Prop} : NumberedList Q fun _ => [] := ⟨[], rfl, nofun⟩

theorem NumberedList.cons {α : Type} {Q : (Nat → α) → Prop} {x : Nat → α} {xs : Nat → List α} (hx : Q x)
    (h : NumberedList Q xs) : NumberedList Q fun c => x c :: xs c := by
  obtain ⟨ys, rfl, hys⟩ := h
  exact ⟨x :: ys, rfl, List.forall_mem_cons.2 ⟨hx, hys⟩⟩

section Lists

variable {α β : Type} {Q R : (Nat → α) → Prop} {P : (Nat → β) → Prop} {xs ys : Nat → List α}

theorem NumberedList.mono (h : NumberedList R xs) (himp : ∀ x, R x → Q x) : NumberedList Q xs := by
  obtain ⟨zs, rfl, hzs⟩ := h
  exact ⟨zs, rfl, fun z hz => himp z (hzs z hz)⟩

theorem NumberedList.append (h : NumberedList Q xs) (hys : NumberedList Q ys) : NumberedList Q fun c => xs c ++ ys c := by
  obtain ⟨zs, rfl, hzs⟩ := h
  induction zs with
  | nil => exact hys
  | cons z zs ih =>
    obtain ⟨hz, hzs⟩ := List.forall_mem_cons.1 hzs
    exact .cons hz (ih hzs)

theorem NumberedList.flatten {xss : Nat → List (List α)} (h : NumberedList (NumberedList Q) xss) :
    NumberedList Q fun c => (xss c).flatten := by
  obtain ⟨zss, rfl, hzss⟩ := h
  induction zss with
  | nil => exact .nil
  | cons zs zss ih =>
    obtain ⟨hzs, hzss⟩ := List.forall_mem_cons.1 hzss
    exact hzs.append (ih hzss)

theorem NumberedList.map {f : Nat → α → β} (h : NumberedList Q xs) (hf : ∀ x, Q x → P fun c => f c (x c)) :
    NumberedList P fun c => (xs c).map (f c) := by
  obtain ⟨zs, rfl, hzs⟩ := h
  induction zs with
  | nil => exact .nil
  | cons z zs ih =>
    obtain ⟨hz, hzs⟩ := List.forall_mem_cons.1 hzs
    exact .cons (hf z hz) (ih hzs)

end Lists

/-- The words of a text that begins with a part of a word. -/
def wordsAfter (start rest : List Char) : List (List Char) :=
  match rest.head? with
  | none => [start]
  | some d =>
    if isBlank d then start :: wordsOf rest else
    match wordsOf rest with
    | word :: others => (start ++ word) :: others
    | [] => [start]

theorem wordsOf_cons (a : Char) (rest : List Char) :
    wordsOf (a :: rest) = if isBlank a then wordsOf rest else wordsAfter [a] rest := by
  rw [wordsOf.eq_def]
  dsimp only
  cases rest <;> rfl

theorem wordsOf_start {start : List Char} (hne : start ≠ []) (hstart : ∀ a ∈ start, isBlank a = false) (rest : List Char) :
    wordsOf (start ++ rest) = wordsAfter start rest := by
  induction start with
  | nil => exact absurd rfl hne
  | cons a start ih =>
    obtain ⟨ha, hstart⟩ := List.forall_mem_cons.1 hstart
    rw [List.cons_append, wordsOf_cons, ha, if_neg Bool.false_ne_true]
    cases start with
    | nil => rfl
    | cons b start =>
      rw [wordsAfter, ih nofun hstart, List.cons_append, List.head?_cons]
      dsimp only
      rw [hstart b List.mem_cons_self, if_neg Bool.false_ne_true]
      unfold wordsAfter
      cases rest.head? with
      | none => rfl
      | some d =>
        dsimp only
        cases isBlank d with
        | true => rfl
        | false => cases wordsOf rest <;> rfl

theorem isBlank_name {c n : Nat} {a : Char} (h : a ∈ Template.name c n) : isBlank a = false :=
  Bool.eq_false_iff.2 (List.any_eq_false.1 (show nameChars.any isBlank = false by decide) a (mem_nameChars h))

namespace NumberedChars

variable {m : Nat} {cs : Nat → List Char}

theorem wordsAfter {start : Nat → List Char} (hstart : NumberedChars m start) (h : NumberedChars m cs)
    (hwords : NumberedList (NumberedChars m) fun c => wordsOf (cs c)) :
    NumberedList (NumberedChars m) fun c => ScriptTrace.wordsAfter (start c) (cs c) := by
  obtain ⟨ws, hws, hall⟩ := hwords
  have hws (c : Nat) : wordsOf (cs c) = ws.map (· c) := congrFun hws c
  unfold ScriptTrace.wordsAfter
  simp only [h.head?, hws]
  cases (cs 0).head? with
  | none => exact .cons hstart .nil
  | some d =>
    dsimp only
    split
    · exact .cons hstart ⟨ws, rfl, hall⟩
    · cases ws with
      | nil => exact .cons hstart .nil
      | cons w ws =>
        obtain ⟨hw, hall⟩ := List.forall_mem_cons.1 hall
        exact .cons (hstart.append hw) ⟨ws, rfl, hall⟩

/-- The words of a numbered text. -/
theorem wordsOf (h : NumberedChars m cs) : NumberedList (NumberedChars m) fun c => ScriptTrace.wordsOf (cs c) := by
  induction h with
  | nil => exact .nil
  | char a h ih =>
    cases ha : isBlank a with
    | true =>
      have hskip (cs : List Char) : ScriptTrace.wordsOf (a :: cs) = ScriptTrace.wordsOf cs := by
        rw [wordsOf_cons, ha, if_pos rfl]
      simp only [hskip]
      exact ih
    | false =>
      have hword (cs : List Char) := wordsOf_start (List.cons_ne_nil a []) (List.forall_mem_singleton.2 ha) cs
      simp only [List.singleton_append] at hword
      simp only [hword]
      exact (const m [a]).wordsAfter h ih
  | name n hpos hle h ih =>
    have hword (c : Nat) (cs : List Char) : ScriptTrace.wordsOf (Template.name c n ++ cs) =
        ScriptTrace.wordsAfter (Template.name c n) cs :=
      wordsOf_start (by rw [name_eq]; exact List.cons_ne_nil _ _) (fun _ => isBlank_name) cs
    simp only [hword]
    exact (name_self hpos hle).wordsAfter h ih

end NumberedChars

/-! ## Texts -/

/-- The texts that a template gives. -/
structure NumberedText (m : Nat) (s : Nat → String) : Prop where
  chars : NumberedChars m fun c => (s c).toList

namespace NumberedText

variable {m : Nat} {s t : Nat → String}

theorem exists_template (h : NumberedText m s) :
    ∃ t : Template, (∀ n ∈ t.gaps, 0 < n ∧ n ≤ m) ∧ ∀ c, s c = t.fill c := by
  obtain ⟨t, hgaps, ht⟩ := h.chars.exists_template
  exact ⟨t, hgaps, fun c => by rw [Template.fill, ← ht, String.ofList_toList]⟩

theorem mono {m' : Nat} (h : NumberedText m s) (hle : m ≤ m') : NumberedText m' s := ⟨h.chars.mono hle⟩

theorem const (m : Nat) (s : String) : NumberedText m fun _ => s := ⟨.const m s.toList⟩

theorem ofList {cs : Nat → List Char} (h : NumberedChars m cs) : NumberedText m fun c => String.ofList (cs c) :=
  ⟨by simpa only [String.toList_ofList] using h⟩

theorem name {n : Nat} (hpos : 0 < n) (hle : n ≤ m) : NumberedText m fun c => Probe.initName (c + n) :=
  ⟨NumberedChars.name_self hpos hle⟩

theorem append (hs : NumberedText m s) (ht : NumberedText m t) : NumberedText m fun c => s c ++ t c :=
  ⟨by simpa only [String.toList_append] using hs.chars.append ht.chars⟩

theorem after (h : NumberedText m s) (start : String) : NumberedText m fun c => start ++ s c := (const m start).append h

theorem before (h : NumberedText m s) (ending : String) : NumberedText m fun c => s c ++ ending := h.append (const m ending)

theorem intercalate (sep : String) {xs : Nat → List String} (h : NumberedList (NumberedText m) xs) :
    NumberedText m fun c => sep.intercalate (xs c) := by
  obtain ⟨ys, rfl, hys⟩ := h
  induction ys with
  | nil => exact const m _
  | cons y ys ih =>
    obtain ⟨hy, hys⟩ := List.forall_mem_cons.1 hys
    cases ys with
    | nil => simpa only [List.map_cons, List.map_nil, String.intercalate_singleton] using hy
    | cons z ys =>
      simp only [List.map_cons, String.intercalate_cons_cons] at ih ⊢
      exact (hy.append (const m sep)).append (ih hys)

theorem join {xs : Nat → List String} (h : NumberedList (NumberedText m) xs) : NumberedText m fun c => String.join (xs c) := by
  obtain ⟨ys, rfl, hys⟩ := h
  induction ys with
  | nil => exact const m _
  | cons y ys ih =>
    obtain ⟨hy, hys⟩ := List.forall_mem_cons.1 hys
    simp only [List.map_cons, String.join_cons]
    exact hy.append (ih hys)

theorem squeeze (h : NumberedText m s) : NumberedText m fun c => ScriptTrace.squeeze (s c) := by
  obtain ⟨ws, hws, hall⟩ := h.chars.wordsOf
  have hws (c : Nat) : wordsOf (s c).toList = ws.map (· c) := congrFun hws c
  unfold ScriptTrace.squeeze
  simp only [hws, List.map_map]
  refine intercalate " " ⟨ws.map fun w c => String.ofList (w c), ?_, List.forall_mem_map.2 fun w hw => (ofList (hall w hw) : NumberedText m fun c => String.ofList (w c))⟩
  simp only [List.map_map]
  rfl

theorem quote (h : NumberedText m s) : NumberedText m fun c => ScriptTrace.quote (s c) := by
  have hescape : nameChars.all (fun a => escapeChar (fun a => decide (0x20 ≤ a.toNat)) a == [a]) = true := by decide
  have hchars := h.chars.flatMap fun a ha => eq_of_beq (List.all_eq_true.1 hescape a ha)
  exact ofList (.char '"' (hchars.append (.const m ['"'])))

theorem inspect (h : NumberedText m s) : NumberedText m fun c => inspectString (s c) := by
  have hescape {mark : Char} (hall : nameChars.all (fun a => inspectChar mark a == [a]) = true) := h.chars.flatMap fun a ha =>
    eq_of_beq (List.all_eq_true.1 hall a ha)
  have hchars (c : Nat) (a : Char) (ha : a ∉ nameChars) := h.chars.contains ha c
  unfold inspectString
  simp only [hchars _ '\'' (by decide), hchars _ '"' (by decide)]
  split
  · exact ofList (.char '"' ((hescape (by decide +kernel)).append (.const m ['"'])))
  · exact ofList (.char '\'' ((hescape (by decide +kernel)).append (.const m ['\''])))

/-! ### What is asked of a text -/

theorem startsWith (h : NumberedText m s) {start : String} (hstart : '_' ∉ start.toList) (c : Nat) :
    ScriptTrace.startsWith start (s c) = ScriptTrace.startsWith start (s 0) := h.chars.isPrefixOf hstart c

theorem eq_iff (h : NumberedText m s) {word : String} (hword : '_' ∉ word.toList) (c : Nat) : s c = word ↔ s 0 = word := by
  rw [← String.toList_inj, ← String.toList_inj]
  exact h.chars.eq_iff hword c

end NumberedText

end ScriptTrace
